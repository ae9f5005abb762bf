import Dropwatch.PollerProofs

/-! # Malformed messages — which ones a batch survives

    `_parse_pair_id` catches what a missing key and a bad string raise.  A body
    that is JSON but not an object, or whose `pair_id` is not a string, fails in
    a third way, one that nests deeper than the decoder goes in a fourth, and these
    exceptions end the batch.  The result is an equivalence: a batch treats its
    malformed messages as absent exactly when every body is one of the handled
    kinds (`malformedSafe_iff`). -/

namespace Dropwatch.Poller

open Transact RuleIndex Evaluator

/-! ## Reading one message -/

section Parse

variable {rt : Runtime}

variable (rt) in
/-- A message that names a pair. -/
def namesPair (message : Message) : Bool := (pairIdOfBody rt message.body).isOk

variable (rt) in
/-- The bodies `_parse_pair_id` is written for: one that is found to be no JSON before it
    nests too deep, or an object in which `pair_id` is absent or a string. -/
def handledBody (body : String) : Bool :=
  match Json.loads rt.nestingLimit body with
  | .error .decode => true
  | .error .recursion => false
  | .ok (.obj entries) =>
      match entries.find? (fun e => e.1 == "pair_id") with
      | none => true
      | some (_, .str _) => true
      | some _ => false
  | .ok _ => false

/-- Reading a string as a UUID raises nothing but a `ValueError`. -/
theorem uuidOfString_error {text : String} {e : PyError}
    (h : uuidOfString text = .error e) : e = .valueError := by
  unfold uuidOfString at h
  dsimp only at h
  split at h
  · exact (Except.error.inj h).symm
  · split at h
    · exact (Except.error.inj h).symm
    · split at h
      · cases h
      · exact (Except.error.inj h).symm

theorem parsePairId_of_ok {message : Message} {pairId : Uuid}
    (h : pairIdOfBody rt message.body = .ok pairId) :
    parsePairId rt message = .ok (some pairId) := by
  rw [parsePairId, h]

theorem parsePairId_of_valueError {message : Message}
    (h : pairIdOfBody rt message.body = .error .valueError) :
    parsePairId rt message = .ok none := by
  rw [parsePairId, h]

theorem parsePairId_of_keyError {message : Message}
    (h : pairIdOfBody rt message.body = .error .keyError) :
    parsePairId rt message = .ok none := by
  rw [parsePairId, h]

/-- An entry under `pair_id` that is not a string has no `replace`. -/
theorem uuidOf_error {value : Json.Value} (h : ∀ text, value ≠ .str text) :
    uuidOf value = .error .typeError ∨ uuidOf value = .error .attributeError := by
  cases value with
  | str text => exact absurd rfl (h text)
  | null => exact Or.inl rfl
  | bool b => exact Or.inr rfl
  | num n => exact Or.inr rfl
  | arr items => exact Or.inr rfl
  | obj entries => exact Or.inr rfl

/-- An error that is not caught goes through `_parse_pair_id`. -/
theorem parsePairId_of_uncaught {message : Message}
    (h : pairIdOfBody rt message.body = .error .typeError
      ∨ pairIdOfBody rt message.body = .error .attributeError
      ∨ pairIdOfBody rt message.body = .error .recursionError) :
    ¬ ∃ r, parsePairId rt message = .ok r := by
  rintro ⟨r, hr⟩
  rcases h with h | h | h
  · rw [parsePairId, h] at hr
    cases hr
  · rw [parsePairId, h] at hr
    cases hr
  · rw [parsePairId, h] at hr
    cases hr

/-- A string under `pair_id` is read as a UUID or reported as malformed. -/
theorem parsePairId_of_uuidOfString {message : Message} {text : String}
    (h : pairIdOfBody rt message.body = uuidOfString text) :
    ∃ r, parsePairId rt message = .ok r := by
  cases hu : uuidOfString text with
  | ok pairId => exact ⟨_, parsePairId_of_ok (h.trans hu)⟩
  | error e =>
      rw [uuidOfString_error hu] at hu
      exact ⟨_, parsePairId_of_valueError (h.trans hu)⟩

/-- JSON that is not an object cannot be subscripted by a string. -/
theorem pairIdOfBody_of_not_obj {body : String} {value : Json.Value}
    (h : Json.loads rt.nestingLimit body = .ok value) (hobj : ∀ entries, value ≠ .obj entries) :
    pairIdOfBody rt body = .error .typeError ∧ handledBody rt body = false := by
  rw [pairIdOfBody, handledBody, h]
  cases value with
  | obj entries => exact absurd rfl (hobj entries)
  | null => exact ⟨rfl, rfl⟩
  | bool b => exact ⟨rfl, rfl⟩
  | num n => exact ⟨rfl, rfl⟩
  | str text => exact ⟨rfl, rfl⟩
  | arr items => exact ⟨rfl, rfl⟩

/-- What is read from an object is its `pair_id` entry. -/
theorem pairIdOfBody_of_obj {body : String} {entries : List (String × Json.Value)}
    (h : Json.loads rt.nestingLimit body = .ok (.obj entries)) :
    pairIdOfBody rt body = match entries.find? (fun e => e.1 == "pair_id") with
      | some e => uuidOf e.2
      | none => .error .keyError := by
  rw [pairIdOfBody, h]
  cases hfind : entries.find? (fun e => e.1 == "pair_id") with
  | none => simp [subscript, hfind, bind, Except.bind]
  | some e => simp [subscript, hfind, bind, Except.bind]

theorem handledBody_of_obj {body : String} {entries : List (String × Json.Value)}
    (h : Json.loads rt.nestingLimit body = .ok (.obj entries)) :
    handledBody rt body = match entries.find? (fun e => e.1 == "pair_id") with
      | none => true
      | some (_, .str _) => true
      | some _ => false := by
  rw [handledBody, h]

/-- `_parse_pair_id` returns on the handled bodies and raises on all others. -/
theorem parsePairId_isOk (message : Message) :
    (∃ r, parsePairId rt message = .ok r) ↔ handledBody rt message.body = true := by
  cases hload : Json.loads rt.nestingLimit message.body with
  | error e =>
      have hbody : pairIdOfBody rt message.body = .error (loadError e) := by
        rw [pairIdOfBody, hload]
      -- `JSONDecodeError` is caught, `RecursionError` is not.
      cases e with
      | decode =>
          have hhandled : handledBody rt message.body = true := by rw [handledBody, hload]
          exact ⟨fun _ => hhandled, fun _ => ⟨_, parsePairId_of_valueError hbody⟩⟩
      | recursion =>
          have hno : handledBody rt message.body = false := by rw [handledBody, hload]
          rw [hno]
          exact ⟨fun h => absurd h (parsePairId_of_uncaught (Or.inr (Or.inr hbody))),
            fun h => absurd h Bool.false_ne_true⟩
  | ok value =>
      by_cases hobj : ∃ entries, value = .obj entries
      · obtain ⟨entries, rfl⟩ := hobj
        have hbody := pairIdOfBody_of_obj hload
        have hhandled := handledBody_of_obj hload
        cases hfind : entries.find? (fun e => e.1 == "pair_id") with
        | none =>
            rw [hfind] at hbody hhandled
            exact ⟨fun _ => hhandled, fun _ => ⟨_, parsePairId_of_keyError hbody⟩⟩
        | some entry =>
            obtain ⟨key, value⟩ := entry
            rw [hfind] at hbody hhandled
            by_cases hstr : ∃ text, value = .str text
            · obtain ⟨text, rfl⟩ := hstr
              have huuid : pairIdOfBody rt message.body = uuidOfString text := hbody
              exact ⟨fun _ => hhandled, fun _ => parsePairId_of_uuidOfString huuid⟩
            · -- `UUID(...)` of something that is not a text raises what is not caught.
              have hno : handledBody rt message.body = false := by
                rw [hhandled]
                cases value with
                | str text => exact absurd ⟨text, rfl⟩ hstr
                | null => rfl
                | bool b => rfl
                | num n => rfl
                | arr items => rfl
                | obj entries => rfl
              have huncaught := uuidOf_error (fun text h => hstr ⟨text, h⟩)
              rw [hno]
              exact ⟨fun h => absurd h (parsePairId_of_uncaught
                (huncaught.imp hbody.trans (fun h => Or.inl (hbody.trans h)))),
                fun h => absurd h Bool.false_ne_true⟩
      · obtain ⟨hbody, hno⟩ := pairIdOfBody_of_not_obj hload
          (fun entries h => hobj ⟨entries, h⟩)
        rw [hno]
        exact ⟨fun h => absurd h (parsePairId_of_uncaught (Or.inl hbody)),
          fun h => absurd h Bool.false_ne_true⟩

/-! ## The parsing loop -/

theorem parsePairId_of_not_namesPair {message : Message} {r : Option Uuid}
    (h : parsePairId rt message = .ok r) (hn : namesPair rt message = false) : r = none := by
  rw [namesPair] at hn
  rw [parsePairId] at h
  cases hb : pairIdOfBody rt message.body with
  | ok pairId =>
      rw [hb] at hn
      exact absurd hn (by simp [Except.isOk, Except.toBool])
  | error e =>
      rw [hb] at h
      cases e <;> first | exact (Except.ok.inj h).symm | cases h

theorem namesPair_of_parsePairId {message : Message} {pairId : Uuid}
    (h : parsePairId rt message = .ok (some pairId)) : namesPair rt message = true := by
  by_contra hn
  cases parsePairId_of_not_namesPair h (Bool.eq_false_iff.mpr hn)

/-- On handled messages the loop skips the malformed ones. -/
theorem collectMessages_filter {messages : List Message}
    (h : ∀ m ∈ messages, handledBody rt m.body = true) (byPairId : Dict Uuid Message) :
    collectMessages rt messages byPairId
      = collectMessages rt (messages.filter (namesPair rt)) byPairId := by
  induction messages generalizing byPairId with
  | nil => rfl
  | cons message rest ih =>
      have hrest := fun m hm => h m (List.mem_cons_of_mem message hm)
      obtain ⟨r, hr⟩ := (parsePairId_isOk message).mpr (h message List.mem_cons_self)
      cases hn : namesPair rt message with
      | true =>
          rw [List.filter_cons_of_pos hn, collectMessages, collectMessages, hr]
          cases r with
          | none => exact ih hrest byPairId
          | some pairId => exact ih hrest (byPairId.set pairId message)
      | false =>
          rw [List.filter_cons_of_neg (by simp [hn]), collectMessages, hr,
            parsePairId_of_not_namesPair hr hn]
          exact ih hrest byPairId

/-- A collected entry is a message of the batch under the id it names. -/
theorem parsePairId_of_mem {messages : List Message} {byPairId result : Dict Uuid Message}
    (h : collectMessages rt messages byPairId = .ok result) {e : Uuid × Message}
    (he : e ∈ result) :
    e ∈ byPairId ∨ (e.2 ∈ messages ∧ parsePairId rt e.2 = .ok (some e.1)) := by
  induction messages generalizing byPairId with
  | nil =>
      rw [← Except.ok.inj h] at he
      exact Or.inl he
  | cons message rest ih =>
      rw [collectMessages] at h
      cases hr : parsePairId rt message with
      | error err =>
          rw [hr] at h
          cases h
      | ok r =>
          rw [hr] at h
          cases r with
          | none =>
              rcases ih h with hold | ⟨hmem, hparse⟩
              · exact Or.inl hold
              · exact Or.inr ⟨List.mem_cons_of_mem _ hmem, hparse⟩
          | some pairId =>
              rcases ih h with hold | ⟨hmem, hparse⟩
              · rcases Dict.mem_set hold with heq | hold'
                · rw [heq]
                  exact Or.inr ⟨List.mem_cons_self, hr⟩
                · exact Or.inl hold'
              · exact Or.inr ⟨List.mem_cons_of_mem _ hmem, hparse⟩

/-- The collected messages come from the batch and name a pair. -/
theorem collectMessages_mem {messages : List Message} {byPairId result : Dict Uuid Message}
    (h : collectMessages rt messages byPairId = .ok result) {e : Uuid × Message}
    (he : e ∈ result) :
    e ∈ byPairId ∨ (e.2 ∈ messages ∧ namesPair rt e.2 = true) := by
  rcases parsePairId_of_mem h he with hold | ⟨hmem, hparse⟩
  · exact Or.inl hold
  · exact Or.inr ⟨hmem, namesPair_of_parsePairId hparse⟩

end Parse

/-! ## What a batch deletes -/

/-- A command that deletes nothing but messages satisfying `ok`. -/
def DeletesOnly (ok : Message → Prop) :
    ∀ β : Type, Cmd Database Write Generated MemOp ExtOp β → Prop
  | _, .ask (.deleteMessageBatch messages) => ∀ m ∈ messages, ok m
  | _, _ => True

variable (rt : Runtime) (settings : Settings) {ok : Message → Prop}

theorem deletesOnly_of_inSession {β : Type}
    {c : Cmd Database Write Generated MemOp ExtOp β} (h : c.inSession = true) :
    DeletesOnly ok β c := by
  cases c with
  | ask e => exact absurd h (by simp [Cmd.inSession])
  | query q => exact trivial
  | write w => exact trivial
  | insert w => exact trivial
  | commit => exact trivial
  | mem m => exact trivial

theorem deleteBatch_deletesOnly {messages : List Message} (h : ∀ m ∈ messages, ok m) :
    (deleteBatch messages).Sat (DeletesOnly ok) (fun _ => True) := by
  rw [deleteBatch]
  by_cases hm : messages.isEmpty = true
  · rw [if_pos hm]
    exact trivial
  · rw [if_neg hm]
    exact ⟨h, fun _ => trivial⟩

theorem observePair_deletesOnly (pair : Pair) (quote : Quote) (observedAt : Instant) :
    (observePair rt settings pair quote observedAt).Sat (DeletesOnly ok)
      (fun _ => True) := by
  have heval : (evaluateRulesForPair rt settings pair
      (quoteObservation quote observedAt)).Sat (DeletesOnly ok) (fun _ => True) :=
    (evaluateRulesForPair_local rt settings pair _).mono
      (fun _ _ h => deletesOnly_of_inSession h) (fun _ _ => trivial)
  exact ⟨trivial, fun _ => ⟨trivial, fun _ => heval.bind (fun _ _ => trivial)⟩⟩

theorem observeAll_deletesOnly (pairs : Dict String Pair) (quotes : Dict String Quote)
    (observedAt : Instant) {entries : List (String × Message)}
    (h : ∀ e ∈ entries, ok e.2) :
    (observeAll rt settings pairs quotes observedAt entries).Sat (DeletesOnly ok)
      (fun toDelete => ∀ m ∈ toDelete, ok m) := by
  refine (observeAll_sat (fun pair quote => observePair_deletesOnly rt settings pair quote
    observedAt) pairs quotes entries).mono (fun _ _ hcmd => hcmd) ?_
  intro toDelete hdel m hm
  obtain ⟨e, he, rfl⟩ := hdel m hm
  exact h e he

/-- Entries of `message_by_canonical` are entries of the live list. -/
theorem messageByCanonical_mem {live : List (Pair × Message)} {e : String × Message}
    (h : e ∈ messageByCanonical live) : ∃ l ∈ live, l.2 = e.2 := by
  rw [messageByCanonical] at h
  induction live using List.reverseRecOn with
  | nil => exact absurd h List.not_mem_nil
  | append_singleton live last ih =>
      rw [List.foldl_append] at h
      rcases Dict.mem_set h with heq | hold
      · exact ⟨last, by simp, by rw [heq]⟩
      · obtain ⟨l, hl, hle⟩ := ih hold
        exact ⟨l, List.mem_append_left _ hl, hle⟩

theorem processLive_deletesOnly {gone : List Message} {live : List (Pair × Message)}
    (hgone : ∀ m ∈ gone, ok m) (hlive : ∀ l ∈ live, ok l.2) :
    (processLive rt settings gone live).Sat (DeletesOnly ok) (fun _ => True) := by
  refine ⟨trivial, ?_⟩
  intro quotes
  cases quotes with
  | none => exact deleteBatch_deletesOnly hgone
  | some quotes =>
      refine ⟨trivial, fun observedAt => ?_⟩
      have hentries : ∀ e ∈ messageByCanonical live, ok e.2 := by
        intro e he
        obtain ⟨l, hl, heq⟩ := messageByCanonical_mem he
        exact heq ▸ hlive l hl
      refine (observeAll_deletesOnly rt settings (pairByCanonical live) quotes observedAt
        hentries).bind (fun toDelete hdel => ⟨trivial, fun _ => ?_⟩)
      refine deleteBatch_deletesOnly ?_
      intro m hm
      rcases List.mem_append.mp hm with hm | hm
      · exact hgone m hm
      · exact hdel m hm

/-- A batch deletes only messages of its own that name a pair. -/
theorem processBatch_deletesOnly (messages : List Message) :
    (processBatch rt settings messages).Sat
      (DeletesOnly (fun m => m ∈ messages ∧ namesPair rt m = true)) (fun _ => True) := by
  rw [processBatch]
  refine Script.Sat.bind
    (Q := fun byPairId => ∀ e ∈ byPairId, e.2 ∈ messages ∧ namesPair rt e.2 = true)
    (Script.Sat.lift ?_) ?_
  · intro byPairId hcollect e he
    rcases collectMessages_mem hcollect he with hnil | hmem
    · exact absurd hnil List.not_mem_nil
    · exact hmem
  · intro byPairId hall
    by_cases hempty : byPairId.isEmpty = true
    · rw [if_pos hempty]
      exact trivial
    · rw [if_neg hempty]
      refine ⟨trivial, fun rows => ?_⟩
      have hgone : ∀ m ∈ goneMessages byPairId (pairsById rows),
          m ∈ messages ∧ namesPair rt m = true := by
        intro m hm
        obtain ⟨e, he, rfl⟩ := List.mem_map.mp hm
        exact hall e (List.mem_filter.mp he).1
      have hlive : ∀ l ∈ liveEntries byPairId (pairsById rows),
          l.2 ∈ messages ∧ namesPair rt l.2 = true := by
        intro l hl
        obtain ⟨e, he, hmap⟩ := List.mem_filterMap.mp hl
        obtain ⟨pair, -, rfl⟩ := Option.map_eq_some_iff.mp hmap
        exact hall e he
      show Script.Sat _ _ (if (liveEntries byPairId (pairsById rows)).isEmpty then _ else _)
      by_cases hl : (liveEntries byPairId (pairsById rows)).isEmpty = true
      · rw [if_pos hl]
        exact deleteBatch_deletesOnly hgone
      · rw [if_neg hl]
        exact processLive_deletesOnly rt settings hgone hlive

/-- A run of such a script adds only such messages to the deleted ones. -/
theorem deleted_of_deletesOnly {α : Type} {Q : α → Prop} {p : Tx α}
    (hp : p.Sat (DeletesOnly ok) Q) {s : State} :
    ∀ m ∈ (runTx p s).2.env.deleted, m ∈ s.env.deleted ∨ ok m := by
  refine hp.run_inv backend isolated
    (J := fun s' => ∀ m ∈ s'.env.deleted, m ∈ s.env.deleted ∨ ok m) ?_
    (fun m hm => Or.inl hm)
  intro β c s' hc hJ
  cases c with
  | query q => exact hJ
  | write w => exact hJ
  | insert w =>
      simp only [exec]
      split
      · exact hJ
      · exact hJ
  | commit => exact hJ
  | mem m => exact hJ
  | ask e =>
      cases e with
      | utcNow => exact hJ
      | uuid4 => exact hJ
      | getQuotes names => exact hJ
      | deleteMessageBatch messages =>
          intro m hm
          rcases List.mem_append.mp hm with hold | hnew
          · exact hJ m hold
          · exact Or.inr (hc m hnew)
      | publish event topicArn subject message =>
          have hdel : (exec backend isolated (.ask (.publish event topicArn subject message))
              s').2.env.deleted = s'.env.deleted := by
            simp only [exec, isolated, World.answer]
            split <;> rfl
          rw [hdel]
          exact hJ
      | sendMessage claim body delaySeconds => exact hJ
      | publishInvalidation channel reason => exact hJ

/-! ## Batches with malformed messages -/

/-- A batch survives its malformed messages: every body is read without an
    exception, the batch is the same program as the batch without them, and none
    of them is deleted. -/
structure MalformedSafe (messages : List Message) : Prop where
  reads : ∀ m ∈ messages, ∃ r, parsePairId rt m = .ok r
  sameBatch : processBatch rt settings messages
    = processBatch rt settings (messages.filter (namesPair rt))
  undeleted : ∀ s, ∀ m ∈ (runTx (processBatch rt settings messages) s).2.env.deleted,
    m ∈ s.env.deleted ∨ (m ∈ messages ∧ namesPair rt m = true)

/-- A batch survives its malformed messages exactly when all its bodies are of
    the handled kinds. -/
theorem malformedSafe_iff (messages : List Message) :
    MalformedSafe rt settings messages ↔ ∀ m ∈ messages, handledBody rt m.body = true := by
  constructor
  · intro h m hm
    exact (parsePairId_isOk m).mp (h.reads m hm)
  · intro h
    refine ⟨fun m hm => (parsePairId_isOk m).mpr (h m hm), ?_, ?_⟩
    · simp only [processBatch]
      rw [collectMessages_filter h []]
    · intro s m hm
      exact deleted_of_deletesOnly (processBatch_deletesOnly rt settings messages) m hm

/-- A body that is a JSON array ends the batch. -/
theorem not_malformedSafe_array :
    ¬ MalformedSafe Runtime.rational {} [⟨"m-1", "r-1", "[]"⟩] := by
  intro h
  obtain ⟨r, hr⟩ := h.reads _ List.mem_cons_self
  have hraise : parsePairId Runtime.rational ⟨"m-1", "r-1", "[]"⟩ = .error .typeError := by
    decide
  rw [hraise] at hr
  cases hr

end Dropwatch.Poller
