import Dropwatch.NaiveScanProofs
import Dropwatch.PollerProofs
import Dropwatch.RulesApi

/-! # Redelivery — a committed batch is processed once more

    A crash between the commit and the deletion of the messages makes SQS
    deliver them again, to this process or to another one.  The second run sees
    the committed tables of the first and asks for the same names
    (`livePart_map`).  A rule that was a candidate in the first run has left its
    key in the tables, and the key depends on the printed state and the minute
    alone (`recordable_congr`), so nothing is left to record for it.  What is new
    in the second run can only come from a rule that was no candidate in the
    first, which takes a predicate that reads the history. -/

namespace Dropwatch.Poller

open Transact RuleIndex Evaluator Zscore

/-! ## The pairs of the batch -/

section Renamed

variable {f : Pair → Pair} (hf : KeepsIdentity f)

include hf

theorem pairsById_map (rows : List Pair) :
    pairsById (rows.map f) = (pairsById rows).map (fun e => (e.1, f e.2)) := by
  show (rows.map f).foldl (fun d p => Dict.set d p.id p) [] = _
  rw [List.foldl_map]
  have hid : (fun (d : Dict Uuid Pair) (p : Pair) => Dict.set d (f p).id (f p))
      = fun d p => Dict.set d p.id (f p) := by
    funext d p
    rw [(hf p).1]
  rw [hid]
  exact Dict.foldl_set_map Pair.id id f rows []

theorem selectPairs_map {db db' : Database} (h : db'.pairs = db.pairs.map f)
    (ids : List Uuid) : db'.selectPairs ids = (db.selectPairs ids).map f := by
  show db'.pairs.filter _ = (db.pairs.filter _).map f
  rw [h, List.filter_map]
  congr 1
  refine List.filter_congr ?_
  intro p _
  show ids.contains (f p).id = ids.contains p.id
  rw [(hf p).1]

/-- The second run has the pairs of the first, as the first left them. -/
theorem livePart_map {db db' : Database} (h : db'.pairs = db.pairs.map f)
    (byPairId : Dict Uuid Message) :
    livePart db' byPairId = (livePart db byPairId).map (fun e => (f e.1, e.2)) := by
  show liveEntries byPairId (pairsById (db'.selectPairs byPairId.keys)) = _
  rw [selectPairs_map hf h, pairsById_map hf]
  show byPairId.filterMap _ = (byPairId.filterMap _).map _
  rw [List.map_filterMap]
  congr 1
  funext e
  rw [Dict.get?_map, Option.map_map, Option.map_map]
  rfl

theorem messageByCanonical_map (live : List (Pair × Message)) :
    messageByCanonical (live.map (fun e => (f e.1, e.2))) = messageByCanonical live := by
  have hname : (fun (d : Dict String Message) (e : Pair × Message) =>
      Dict.set d (f e.1).krakenPairName e.2)
      = fun d e => Dict.set d e.1.krakenPairName e.2 := by
    funext d e
    rw [(hf e.1).2]
  rw [messageByCanonical, List.foldl_map, hname]
  rfl

theorem pairByCanonical_map (live : List (Pair × Message)) :
    pairByCanonical (live.map (fun e => (f e.1, e.2)))
      = (pairByCanonical live).map (fun e => (e.1, f e.2)) := by
  have hname : (fun (d : Dict String Pair) (e : Pair × Message) =>
      Dict.set d (f e.1).krakenPairName (f e.1))
      = fun d e => Dict.set d e.1.krakenPairName (f e.1) := by
    funext d e
    rw [(hf e.1).2]
  rw [pairByCanonical, List.foldl_map, hname]
  exact Dict.foldl_set_map (fun e : Pair × Message => e.1.krakenPairName) Prod.fst f live []

/-- A batch that gets to its loop over the later tables did so over the earlier
    ones. -/
theorem Observes.of_map {db db' : Database}
    {quotesOf : List String → Option (Dict String Quote)} {messages : List Message}
    {byPairId : Dict Uuid Message} {quotes : Dict String Quote}
    (hpairs : db'.pairs = db.pairs.map f)
    (h : Observes rt db' quotesOf messages byPairId quotes) :
    Observes rt db quotesOf messages byPairId quotes where
  collected := h.collected
  live := by
    intro hnil
    refine h.live ?_
    rw [livePart_map hf hpairs, hnil]
    rfl
  quoted := by
    have hquoted := h.quoted
    rw [livePart_map hf hpairs, messageByCanonical_map hf] at hquoted
    exact hquoted

end Renamed

/-! ## The rules of the batch -/

/-- Two loads of one rule: only `last_fired_at` may differ. -/
def SameRule (rule rule' : AlertRule) : Prop :=
  rule' = { rule with lastFiredAt := rule'.lastFiredAt }

/-- The index of a process that loaded valid rules. -/
structure Loaded (m : Memory) : Prop where
  indexed : m.Indexed
  scanOrder : ∀ pairId, (m.rulesForPair pairId).ScanOrder

/-- A rebuild over rules with distinct ids and thresholds loads them. -/
theorem loaded_install {rules : List AlertRule} {buckets : Dict Uuid PairRules}
    (hid : (rules.map AlertRule.id).Nodup) (hthr : HaveThresholds rules)
    (hb : bucketRules rules = .ok buckets) (m : Memory) :
    Loaded (m.install rules buckets) where
  indexed := Memory.Indexed.install hid hb m
  scanOrder := by
    intro pairId
    rw [m.rulesForPair_install hb pairId]
    exact (sortable_bucketOf hthr pairId).scanOrder

section Rules

variable {rt : Runtime} {settings : Settings}

/-- The key of a detected state reads neither the cooldown state nor the
    seconds. -/
theorem recordable_congr {pair pair' : Pair} {quote : Quote} {t t' : Instant}
    {rule rule' : AlertRule} (hrule : SameRule rule rule') (hpair : pair'.id = pair.id)
    (hminute : minuteBucket t' = minuteBucket t) (db : Database) :
    recordable rt pair' (quoteObservation quote t') db rule'
      = recordable rt pair (quoteObservation quote t) db rule := by
  have hkey : keyOf rt pair' (quoteObservation quote t') rule'
      = keyOf rt pair (quoteObservation quote t) rule := by
    rw [hrule]
    simp only [keyOf, stateKey, computeDetectedStateHash, detectedStateParts, quoteObservation,
      hpair, hminute]
  have hid : rule'.id = rule.id := by rw [hrule]
  rw [recordable, recordable, hkey, hid, hpair]

/-- The predicates that read the history. -/
def Windowed (rule : AlertRule) : Prop :=
  rule.ruleType = .percentChange ∨ rule.ruleType = .zscoreMove

/-- The other predicates read the quote alone. -/
theorem firesIn_congr {db : Database} {pair : Pair} {quote : Quote} {t : Instant}
    {score : Option (ZScoreResult rt)} {rule rule' : AlertRule} (db' : Database)
    (pair' : Pair) (t' : Instant) (score' : Option (ZScoreResult rt))
    (hrule : SameRule rule rule') (hw : ¬ Windowed rule) :
    firesIn rt settings db' pair' (quoteObservation quote t') score' rule'
      = firesIn rt settings db pair (quoteObservation quote t) score rule := by
  have htype : rule'.ruleType = rule.ruleType := by rw [hrule]
  have habsolute : ruleFires rule' = ruleFires rule := by
    rw [hrule]
    rfl
  have hspread : spreadWidenRuleFires rule' = spreadWidenRuleFires rule := by
    rw [hrule]
    rfl
  rw [firesIn, firesIn, htype, habsolute, hspread]
  cases ht : rule.ruleType with
  | absoluteBelow => rfl
  | absoluteAbove => rfl
  | zscoreMove => exact absurd (Or.inr ht) hw
  | percentChange => exact absurd (Or.inl ht) hw
  | spreadWiden => rfl

end Rules

/-! ## Two runs -/

section Twice

variable (rt : Runtime) (settings : Settings)

/-- The second run starts where the first run left the tables, in a process that
    has loaded the same rules, with the same quotes and in the same minute. -/
structure Redelivers (s s₁ s₂ : State) : Prop where
  committed : s₂.committed = s₁.committed
  view : s₂.view = s₂.committed
  quotes : s₂.env.quotes = s.env.quotes
  minute : minuteBucket s₂.env.clock = minuteBucket s.env.clock
  loaded : Loaded s₂.mem
  rules : ∀ pairId, ∀ rule' ∈ (s₂.mem.rulesForPair pairId).all,
    ∃ rule ∈ (s.mem.rulesForPair pairId).all, SameRule rule rule'

/-- A rule of a quoted pair of the batch whose predicate reads the history and
    was false over the history the first run saw. -/
def Missed (messages : List Message) (s : State) (ruleId : Uuid) : Prop :=
  ∃ byPairId quotes, Observes rt s.view s.env.quotes messages byPairId quotes
    ∧ ∃ name quote pair rule, quotes.get? name = some quote
      ∧ (pairByCanonical (livePart s.view byPairId)).get? name = some pair
      ∧ rule ∈ (s.mem.rulesForPair pair.id).all ∧ rule.id = ruleId ∧ Windowed rule
      ∧ ownPredicate rt settings (observed s.view pair quote s.env.clock) pair
          (quoteObservation quote s.env.clock) rule = .ok false

/-- From `db` to `db'` only rules missed by the run from `s` were recorded, and no
    outbox event without its notification. -/
structure AddsOnlyMissed (messages : List Message) (s : State) (db db' : Database) :
    Prop where
  notifications : ∀ n ∈ db'.notifications,
    n ∈ db.notifications ∨ Missed rt settings messages s n.ruleId
  outboxEvents : ∀ e ∈ db'.outboxEvents, e ∈ db.outboxEvents
    ∨ ∃ n ∈ db'.notifications, n.id = e.notificationId ∧ n ∉ db.notifications

theorem AddsOnlyMissed.refl (messages : List Message) (s : State) (db : Database) :
    AddsOnlyMissed rt settings messages s db db where
  notifications := fun _ hn => Or.inl hn
  outboxEvents := fun _ he => Or.inl he

variable {rt settings} {messages : List Message} {s s₁ s₂ : State}

/-- A candidate of the second run that could be recorded was missed by the
    first. -/
theorem missed_of_recordedFor {byPairId : Dict Uuid Message} {quotes : Dict String Quote}
    {toDelete : List Message} {s' : State} (hm : Loaded s.mem) (h : Redelivers s s₁ s₂)
    (hobs : Observes rt s.view s.env.quotes messages byPairId quotes)
    (hloop : runTx (batchLoop rt settings s.view byPairId quotes s.env.clock) s
      = (.ok toDelete, s'))
    (hs' : s₂.view = s'.view) {n : Notification}
    (hrec : RecordedFor rt settings (pairByCanonical (livePart s₂.view byPairId)) quotes
      s₂.env.clock (messageByCanonical (livePart s₂.view byPairId)) s₂ n) :
    Missed rt settings messages s n.ruleId := by
  obtain ⟨f, hf, hpairs⟩ := (grows_observeAll hm.indexed hloop).pairs
  rw [← hs'] at hpairs
  obtain ⟨e, he, quote, pair', db, c', rule', hquote, hpair', hc', hr', hrec, s₃, hn⟩ := hrec
  rw [livePart_map hf hpairs, messageByCanonical_map hf] at he
  rw [livePart_map hf hpairs, pairByCanonical_map hf, Dict.get?_map] at hpair'
  obtain ⟨pair, hpair, hfp⟩ := Option.map_eq_some_iff.mp hpair'
  have hpid : pair'.id = pair.id := by rw [← hfp, (hf pair).1]
  -- The first run selected over its own row and settled what it selected.
  obtain ⟨c, hc, hsettled⟩ := settled_observeAll hm.indexed
    (distinctPairs_livePart s.view byPairId) hloop e he quote pair hquote hpair
  obtain ⟨hscore, -, hrules, hwin⟩ := candidatesIn_ok rt settings hc
  obtain ⟨-, -, hrules', -⟩ := candidatesIn_ok rt settings hc'
  rw [hpid] at hrules'
  rw [selectedIn_eq_filter rt settings (h.loaded.indexed pair.id)
    (h.loaded.scanOrder pair.id)] at hrules'
  rw [hrules'] at hr'
  obtain ⟨hmem', hfires'⟩ := List.mem_filter.mp hr'
  obtain ⟨rule, hmem, hsame⟩ := h.rules pair.id rule' hmem'
  have hrid : rule.id = n.ruleId := by
    rw [hn]
    show rule.id = rule'.id
    rw [hsame]
  cases hfires : firesIn rt settings (observed s.view pair quote s.env.clock) pair
      (quoteObservation quote s.env.clock) c.zscoreResult rule with
  | true =>
      -- Selected in the first run: its key is there.
      have hselected : rule ∈ c.rules := by
        rw [hrules, selectedIn_eq_filter rt settings (hm.indexed pair.id)
          (hm.scanOrder pair.id)]
        exact List.mem_filter.mpr ⟨hmem, hfires⟩
      have hset := hsettled rule hselected
      rw [recordable_congr hsame hpid h.minute, hs', hset] at hrec
      cases hrec
  | false =>
      refine ⟨byPairId, quotes, hobs, e.1, quote, pair, rule, hquote, hpair, hmem, hrid, ?_, ?_⟩
      · -- A predicate on the quote alone would have been false again.
        by_contra hw
        rw [firesIn_congr db pair' s₂.env.clock c'.zscoreResult hsame hw, hfires] at hfires'
        cases hfires'
      · rw [ownPredicate_eq_firesIn (hm.indexed pair.id) hscore hwin hmem, hfires]

/-- A batch that got to its loop and returned has committed what the loop left. -/
theorem batchLoop_of_returned {byPairId : Dict Uuid Message} {quotes : Dict String Quote}
    (hobs : Observes rt s.view s.env.quotes messages byPairId quotes)
    (hrun : runTx (processBatch rt settings messages) s = (.ok (), s₁)) :
    ∃ toDelete s', runTx (batchLoop rt settings s.view byPairId quotes s.env.clock) s
      = (.ok toDelete, s') ∧ s₁.committed = s'.view := by
  have hbatch := @runTx_processBatch_of_observes rt settings messages s byPairId quotes hobs
  cases hloop : runTx (batchLoop rt settings s.view byPairId quotes s.env.clock) s with
  | mk r s' =>
      rw [hloop, hrun] at hbatch
      cases r with
      | error e => cases hbatch.1
      | ok toDelete => exact ⟨toDelete, s', rfl, hbatch.2⟩

/-- What the second run observes, the first observed. -/
theorem observes_of_redelivers {byPairId : Dict Uuid Message} {quotes : Dict String Quote}
    (hview : s.view = s.committed) (hm : Loaded s.mem)
    (hrun : runTx (processBatch rt settings messages) s = (.ok (), s₁))
    (h : Redelivers s s₁ s₂)
    (hobs : Observes rt s₂.view s₂.env.quotes messages byPairId quotes) :
    Observes rt s.view s.env.quotes messages byPairId quotes := by
  rw [h.view, h.committed, h.quotes] at hobs
  by_cases hfirst : ∃ byPairId quotes, Observes rt s.view s.env.quotes messages byPairId quotes
  · obtain ⟨byPairId', quotes', hobs'⟩ := hfirst
    obtain ⟨toDelete, s', hloop, hs'⟩ := batchLoop_of_returned hobs' hrun
    obtain ⟨f, hf, hpairs⟩ := (grows_observeAll hm.indexed hloop).pairs
    rw [← hs'] at hpairs
    exact hobs.of_map hf hpairs
  · -- The first run committed nothing, so both saw the same tables.
    have hcommitted := @runTx_processBatch_of_not_observes rt settings messages s
      (fun byPairId quotes hobs' => hfirst ⟨byPairId, quotes, hobs'⟩)
    rw [hrun] at hcommitted
    rw [show s₁.committed = s.committed from hcommitted, ← hview] at hobs
    exact hobs

/-- What a second delivery of a batch adds comes from rules the first delivery
    had tested on a history without the row it was about to add. -/
theorem redelivery_adds_only_missed (hview : s.view = s.committed) (hm : Loaded s.mem)
    (hrun : runTx (processBatch rt settings messages) s = (.ok (), s₁))
    (h : Redelivers s s₁ s₂) :
    AddsOnlyMissed rt settings messages s s₁.committed
      (runTx (processBatch rt settings messages) s₂).2.committed := by
  have hview₂ : s₂.view = s₁.committed := h.view.trans h.committed
  by_cases hsecond : ∃ byPairId quotes,
      Observes rt s₂.view s₂.env.quotes messages byPairId quotes
  · obtain ⟨byPairId, quotes, hobs₂⟩ := hsecond
    have hobs := observes_of_redelivers hview hm hrun h hobs₂
    obtain ⟨toDelete, s', hloop, hs'⟩ := batchLoop_of_returned hobs hrun
    have hbatch := @runTx_processBatch_of_observes rt settings messages s₂ byPairId quotes hobs₂
    cases hloop₂ : runTx (batchLoop rt settings s₂.view byPairId quotes s₂.env.clock) s₂ with
    | mk r s₃ =>
        rw [hloop₂] at hbatch
        cases r with
        | error e =>
            rw [hbatch.2, h.committed]
            exact AddsOnlyMissed.refl rt settings messages s s₁.committed
        | ok toDelete₂ =>
            rw [hbatch.2, ← hview₂]
            constructor
            · intro n hn
              rcases origin_observeAll h.loaded.indexed hloop₂ n hn with hold | hrec
              · exact Or.inl hold
              · exact Or.inr (missed_of_recordedFor hm h hobs hloop (hview₂.trans hs') hrec)
            · exact event_origin_observeAll h.loaded.indexed hloop₂
  · rw [runTx_processBatch_of_not_observes
      (fun byPairId quotes hobs => hsecond ⟨byPairId, quotes, hobs⟩), h.committed]
    exact AddsOnlyMissed.refl rt settings messages s s₁.committed

end Twice

/-! ## A batch that records more the second time

    Pair 1 halved half a minute before the batch and is back; its rule compares
    with the price of a minute ago.  Pair 2 halves every minute; its rule scores
    the last return, and the repeated quote is a return of zero. -/

def halvedRule : AlertRule :=
  { id := 7, pairId := 1, ruleType := .percentChange, percent := some ⟨false, 10, 0⟩,
    windowSeconds := some 60 }

def slidingRule : AlertRule :=
  { id := 8, pairId := 2, ruleType := .zscoreMove, sigma := some ⟨false, 3, 0⟩ }

/-- The two rules as the columns keep them. -/
def loadedRules : List AlertRule := [halvedRule.stored, slidingRule.stored]

def priceRow (pairId : Uuid) (price : Nat) (t : Instant) : PriceHistory :=
  ⟨pairId, ⟨false, price, 0⟩, ⟨false, price, 0⟩, ⟨false, price, 0⟩, none, t⟩

/-- Pair 2 fell by more than half once, so that its window has a variance. -/
def slidingRows : List PriceHistory :=
  (List.range 33).map (fun (i : Nat) =>
    priceRow 2 (2 ^ (42 - i) * (if i < 10 then 5 else 4))
      (seconds (1000000020 - 60 * (32 - (i : Int)))))

def firstTables : Database :=
  { pairs := [{ id := 1, krakenPairName := "XBT/USD", displayName := "XBT/USD" },
      { id := 2, krakenPairName := "ETH/USD", displayName := "ETH/USD" }]
    priceHistory := ([priceRow 1 100 (seconds 1000000020), priceRow 1 50 (seconds 1000000050)]
      ++ slidingRows).map PriceHistory.stored
    alertRules := loadedRules }

def twiceMessages : List Message :=
  [{ messageId := "1", receiptHandle := "1"
     body := "\x7b\"pair_id\": \"00000000-0000-0000-0000-000000000001\"\x7d" },
    { messageId := "2", receiptHandle := "2"
      body := "\x7b\"pair_id\": \"00000000-0000-0000-0000-000000000002\"\x7d" }]

def quoteAt (name : String) (price : Nat) : String × Quote :=
  (name, ⟨name, ⟨false, price, 0⟩, ⟨false, price, 0⟩, ⟨false, price, 0⟩, ⟨false, 1, 0⟩⟩)

/-- A process that has loaded the rules, over given tables at a given time. -/
def twiceState (db : Database) (t : Instant) : State :=
  { committed := db
    view := db
    mem := ({} : Memory).install loadedRules
      [(1, { percentChange := [halvedRule.stored] }),
        (2, { zscoreMove := [slidingRule.stored] })]
    env := { clock := t
             quotes := fun _ => some [quoteAt "XBT/USD" 100, quoteAt "ETH/USD" 2048] } }

/-- Before the first delivery, 35 seconds after pair 1 halved. -/
def beforeFirst : State := twiceState firstTables (seconds 1000000085)

def afterFirst : State :=
  (runTx (processBatch Runtime.rational {} twiceMessages) beforeFirst).2

/-- Before the second delivery, half a minute later. -/
def beforeSecond : State := twiceState afterFirst.committed (seconds 1000000115)

def afterSecond : State :=
  (runTx (processBatch Runtime.rational {} twiceMessages) beforeSecond).2

theorem runTx_beforeFirst :
    runTx (processBatch Runtime.rational {} twiceMessages) beforeFirst = (.ok (), afterFirst) := by
  have hok : (runTx (processBatch Runtime.rational {} twiceMessages) beforeFirst).1
      = .ok () := by
    decide +kernel
  exact Prod.ext hok rfl

theorem loaded_twiceState (db : Database) (t : Instant) : Loaded (twiceState db t).mem := by
  refine loaded_install (by decide) ?_ rfl {}
  intro r hr ht
  revert r
  decide

theorem redelivers_twice : Redelivers beforeFirst afterFirst beforeSecond where
  committed := rfl
  view := rfl
  quotes := rfl
  minute := by decide
  loaded := loaded_twiceState _ _
  rules := fun _ rule hrule => ⟨rule, hrule, rfl⟩

theorem redelivery_adds_only_missed_twice :
    AddsOnlyMissed Runtime.rational {} twiceMessages beforeFirst afterFirst.committed
      afterSecond.committed :=
  redelivery_adds_only_missed rfl (loaded_twiceState _ _) runTx_beforeFirst redelivers_twice

/-- Rules of both windowed types are recorded and announced by a second delivery
    within the minute and were not by the first. -/
theorem redelivery_records_more :
    loadedRules.all RulesApi.validRule = true
      ∧ Loaded beforeFirst.mem
      ∧ runTx (processBatch Runtime.rational {} twiceMessages) beforeFirst = (.ok (), afterFirst)
      ∧ Redelivers beforeFirst afterFirst beforeSecond
      ∧ (∃ n ∈ afterSecond.committed.notifications,
          n ∉ afterFirst.committed.notifications ∧ n.type = .percentChange)
      ∧ (∃ n ∈ afterSecond.committed.notifications,
          n ∉ afterFirst.committed.notifications ∧ n.type = .zscoreMove)
      ∧ ∃ e ∈ afterSecond.committed.outboxEvents,
          e ∉ afterFirst.committed.outboxEvents := by
  refine ⟨by decide, loaded_twiceState _ _, runTx_beforeFirst, redelivers_twice, ?_⟩
  decide +kernel

end Dropwatch.Poller
