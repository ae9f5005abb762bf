import Mathlib.Data.Nat.Digits.Lemmas
import Dropwatch.AckProofs
import Dropwatch.KeyProofs
import Dropwatch.Lib.JsonText
import Dropwatch.Scheduler

/-! # The poll messages on the wire

    The scheduler and the poller meet in a queue only: what one prints with `json.dumps`
    and `str(pair.id)`, the other reads with `json.loads` and `UUID`.  Every message that
    a tick sends is read back as the pair it was sent for, so none of them is malformed,
    and a batch of them asks for exactly the pairs they were sent for. -/

namespace Dropwatch.Poller

open Transact RuleIndex Scheduler Keys
open Json (plainChar)

/-! ## A UUID -/

/-- Nothing begins with a pattern whose first character is not there. -/
theorem removeAll_eq_self {p : Char} {pat cs : List Char} (h : p ∉ cs) :
    removeAll (p :: pat) 0 cs = cs := by
  induction cs with
  | nil => rfl
  | cons c cs ih =>
      rw [List.mem_cons, not_or] at h
      have hpc : (p == c) = false := beq_eq_false_iff_ne.mpr h.1
      simp [removeAll, List.isPrefixOf, hpc, ih h.2]

theorem dropWhile_eq_self {p : Char → Bool} {cs : List Char} (h : ∀ c ∈ cs, p c = false) :
    cs.dropWhile p = cs := by
  cases cs with
  | nil => rfl
  | cons c cs =>
      rw [List.dropWhile_cons_of_neg (by rw [h c List.mem_cons_self]; exact Bool.false_ne_true)]

theorem stripChars_eq_self {chars cs : List Char} (h : ∀ c ∈ cs, chars.contains c = false) :
    stripChars chars cs = cs := by
  have hback : ∀ c ∈ cs.reverse, chars.contains c = false :=
    fun c hc => h c (List.mem_reverse.mp hc)
  rw [stripChars, dropWhile_eq_self h, dropWhile_eq_self hback, List.reverse_reverse]

/-- What a hexadecimal digit is to the readers. -/
theorem hexDigit_plain : ∀ n < 16, plainChar (hexDigit n) = true ∧ isSpace (hexDigit n) = false
    ∧ hexDigit n ≠ 'u' ∧ hexDigit n ≠ 'x' ∧ hexDigit n ≠ 'X' ∧ hexDigit n ≠ '_'
    ∧ hexDigit n ≠ '+' ∧ hexDigit n ≠ '-'
    ∧ [Char.ofNat 123, Char.ofNat 125].contains (hexDigit n) = false := by
  decide

/-- A printed UUID has digits and dashes. -/
theorem mem_uuidStr {u : Uuid} {c : Char} (h : c ∈ (uuidStr u).toList) :
    c = '-' ∨ ∃ n < 16, c = hexDigit n := by
  by_cases hdash : c = '-'
  · exact Or.inl hdash
  · right
    refine mem_uuidHex (u := u) ?_
    rw [← filter_uuidStr]
    exact List.mem_filter.mpr ⟨h, bne_iff_ne.mpr hdash⟩

/-- A UUID has 32 digits. -/
theorem length_uuidHex_eq {u : Uuid} (h : u < 2 ^ 128) : (uuidHex u).length = 32 := by
  have hdigits : (Nat.digits 16 u).length ≤ 32 :=
    (Nat.digits_length_le_iff (by decide) u).mpr (by simpa using h)
  rw [uuidHex, List.length_reverse, List.length_append, List.length_replicate, List.length_map]
  omega

/-- Digits are read from the left. -/
theorem hexDigits_map {ds : List Nat} (hds : ∀ d ∈ ds, d < 16) (acc : Nat) (afterDigit : Bool)
    (hne : ds ≠ [] ∨ afterDigit = true) :
    hexDigits acc afterDigit (ds.map hexDigit) = some (ds.foldl (fun a d => a * 16 + d) acc) := by
  induction ds generalizing acc afterDigit with
  | nil =>
      rw [hne.resolve_left (fun h => h rfl)]
      rfl
  | cons d ds ih =>
      have hd := hds d List.mem_cons_self
      have hvalue := (hexDigit_ne d hd).2.2
      have hunderscore : (hexDigit d == '_') = false :=
        beq_eq_false_iff_ne.mpr (hexDigit_plain d hd).2.2.2.2.2.1
      have hrest := ih (fun x hx => hds x (List.mem_cons_of_mem _ hx)) (acc * 16 + d) true
        (Or.inr rfl)
      simp only [List.map_cons, hexDigits, hunderscore, hvalue, Bool.false_eq_true, if_false]
      exact hrest

/-- The digits of a UUID, most significant first. -/
def uuidDigits (u : Uuid) : List Nat :=
  (Nat.digits 16 u ++ List.replicate (32 - (Nat.digits 16 u).length) 0).reverse

theorem uuidHex_eq_map (u : Uuid) : uuidHex u = (uuidDigits u).map hexDigit := by
  rw [uuidHex, uuidDigits, List.map_reverse, List.map_append, List.map_replicate, List.length_map]
  rfl

theorem uuidDigits_lt {u : Uuid} : ∀ d ∈ uuidDigits u, d < 16 := by
  intro d hd
  rcases List.mem_append.mp (List.mem_reverse.mp hd) with hd | hd
  · exact Nat.digits_lt_base (by decide) hd
  · rw [List.eq_of_mem_replicate hd]
    decide

theorem foldl_uuidDigits (u : Uuid) : (uuidDigits u).foldl (fun a d => a * 16 + d) 0 = u := by
  have hvalue : ∀ ds : List Nat, ds.foldr (fun d a => a * 16 + d) 0 = Nat.ofDigits 16 ds := by
    intro ds
    induction ds with
    | nil => rfl
    | cons d ds ih =>
        rw [List.foldr_cons, ih, Nat.ofDigits_cons]
        omega
  rw [uuidDigits, List.foldl_reverse, hvalue, Nat.ofDigits_append_replicate_zero,
    Nat.ofDigits_digits]

/-- `int(hex, 16)` of the digits. -/
theorem intBase16_uuidHex (u : Uuid) : intBase16 (uuidHex u) = some (u : Int) := by
  have hspace : ∀ c ∈ uuidHex u, isSpace c = false := by
    intro c hc
    obtain ⟨n, hn, rfl⟩ := mem_uuidHex hc
    exact (hexDigit_plain n hn).2.1
  have hback : ∀ c ∈ (uuidHex u).reverse, isSpace c = false :=
    fun c hc => hspace c (List.mem_reverse.mp hc)
  have hread : hexDigits 0 false (uuidHex u) = some u := by
    rw [uuidHex_eq_map, hexDigits_map uuidDigits_lt, foldl_uuidDigits]
    left
    intro hnil
    have hlen := length_uuidHex u
    rw [uuidHex_eq_map, hnil] at hlen
    simp at hlen
  -- No digit is a sign or the `x` of a prefix.
  have hbody : hexBody (uuidHex u) = some u := by
    rw [← hread]
    unfold hexBody
    split
    · rename_i x rest heq
      obtain ⟨n, hn, rfl⟩ := mem_uuidHex (u := u) (c := x) (by rw [heq]; simp)
      have hx := beq_eq_false_iff_ne.mpr (hexDigit_plain n hn).2.2.2.1
      have hX := beq_eq_false_iff_ne.mpr (hexDigit_plain n hn).2.2.2.2.1
      rw [hx, hX, heq]
      rfl
    · rfl
  rw [intBase16, dropWhile_eq_self hspace, dropWhile_eq_self hback, List.reverse_reverse]
  split
  · rename_i rest heq
    obtain ⟨n, hn, hdash⟩ := mem_uuidHex (u := u) (c := '-') (by rw [heq]; simp)
    exact absurd hdash.symm (hexDigit_plain n hn).2.2.2.2.2.2.2.1
  · rename_i rest heq
    obtain ⟨n, hn, hplus⟩ := mem_uuidHex (u := u) (c := '+') (by rw [heq]; simp)
    exact absurd hplus.symm (hexDigit_plain n hn).2.2.2.2.2.2.1
  · rw [hbody]
    rfl

/-- `UUID(str(u))` is `u`. -/
theorem uuidOfString_uuidStr {u : Uuid} (h : u < 2 ^ 128) : uuidOfString (uuidStr u) = .ok u := by
  have hdigit : ∀ c ∈ (uuidStr u).toList, c ≠ 'u'
      ∧ [Char.ofNat 123, Char.ofNat 125].contains c = false := by
    intro c hc
    rcases mem_uuidStr hc with rfl | ⟨n, hn, rfl⟩
    · simp
    · exact ⟨(hexDigit_plain n hn).2.2.1, (hexDigit_plain n hn).2.2.2.2.2.2.2.2⟩
  have hu : 'u' ∉ (uuidStr u).toList := fun hmem => (hdigit 'u' hmem).1 rfl
  have hurn : removeAll "urn:".toList 0 (uuidStr u).toList = (uuidStr u).toList :=
    removeAll_eq_self hu
  have huuid : removeAll "uuid:".toList 0 (uuidStr u).toList = (uuidStr u).toList :=
    removeAll_eq_self hu
  have hrange : (0 : Int) ≤ (u : Int) ∧ (u : Int) < 2 ^ 128 := by
    constructor
    · exact Int.natCast_nonneg u
    · exact_mod_cast h
  simp only [uuidOfString, hurn, huuid, stripChars_eq_self (fun c hc => (hdigit c hc).2),
    filter_uuidStr, length_uuidHex_eq h, ne_eq, not_true_eq_false, if_false, intBase16_uuidHex,
    if_pos hrange, Int.toNat_natCast]

/-! ## A poll message -/

/-- What the scheduler prints is an object with the id. -/
theorem text_messageBody (u : Uuid) :
    Json.Text 1 (.obj [("pair_id", .str (uuidStr u))]) (messageBody u) := by
  have hvalue : (uuidStr u).toList.all plainChar = true := by
    refine List.all_eq_true.mpr ?_
    intro c hc
    rcases mem_uuidStr hc with rfl | ⟨n, hn, rfl⟩
    · simp [plainChar]
    · exact (hexDigit_plain n hn).1
  have hbody : (messageBody u).toList = '{' :: '"' :: ("pair_id".toList ++ '"' :: ':' ::
      ' ' :: '"' :: ((uuidStr u).toList ++ ['"', '}'])) := by
    rw [messageBody, String.toList_append, String.toList_append]
    rfl
  refine ⟨_, .obj (.entry "pair_id" (.str (uuidStr u))), ?_⟩
  rw [hbody]
  exact .mark rfl (.quoted "pair_id" (by decide)
    (.mark rfl (.blank rfl (.quoted (uuidStr u) hvalue (.mark rfl .nil)))))

theorem loads_messageBody {rt : Runtime} (u : Uuid) :
    Json.loads rt.nestingLimit (messageBody u) = .ok (.obj [("pair_id", .str (uuidStr u))]) :=
  Json.loads_of_text (text_messageBody u) rt.nestingLimit_pos

/-- A message that names a 128-bit id is read as that id. -/
theorem parsePairId_messageBody {rt : Runtime} {u : Uuid} (h : u < 2 ^ 128) {message : Message}
    (hbody : message.body = messageBody u) : parsePairId rt message = .ok (some u) := by
  apply parsePairId_of_ok
  rw [hbody, pairIdOfBody_of_obj (loads_messageBody u)]
  simp only [List.find?_cons, beq_self_eq_true, uuidOf]
  exact uuidOfString_uuidStr h

theorem messageBody_inj {u v : Uuid} (h : messageBody u = messageBody v) : u = v := by
  have hloads := @loads_messageBody Runtime.rational u
  rw [h, loads_messageBody v] at hloads
  have htext : uuidStr v = uuidStr u := by
    simpa using hloads
  apply uuidHex_inj
  rw [← filter_uuidStr, ← filter_uuidStr, htext]

/-! ## What a tick sends -/

/-- A tick sends this body for this pair. -/
def SentFor (settings : Settings) (body : String) (u : Uuid) : Prop :=
  ∃ (cmds : List (Σ β : Type, Cmd Database Write Generated MemOp ExtOp β)) (r : Except PyError Nat)
    (claimedAt : Instant) (delaySeconds : Int),
    Script.Path (enqueueDuePairs settings) cmds r
      ∧ ⟨Unit, .ask (.sendMessage (u, claimedAt) body delaySeconds)⟩ ∈ cmds

/-- What is sent for a pair names it. -/
theorem body_of_sentFor {settings : Settings} {body : String} {u : Uuid}
    (h : SentFor settings body u) : body = messageBody u := by
  obtain ⟨cmds, r, claimedAt, delaySeconds, hpath, hmem⟩ := h
  exact hpath.sat (enqueueDuePairs_commands settings) _ hmem

/-! ## What the poller reads -/

/-- A message that a tick sent is read as the pair it was sent for. -/
theorem parsePairId_of_sentFor {settings : Settings} {message : Message} {u : Uuid}
    (hlt : u < 2 ^ 128) (h : SentFor settings message.body u) :
    parsePairId rt message = .ok (some u) :=
  parsePairId_messageBody hlt (body_of_sentFor h)

section Pipeline

variable {rt : Runtime} {settings : Settings} {messages : List Message} {s s' : State}

/-- What the scheduler asks for, the poller does.  In a batch of messages that ticks have
    sent, every message is read, as the pair it was sent for; and when the batch returns,
    of every pair that was sent for and is still there and quoted a row has been added,
    and one of its messages is off the queue.  Nothing else was deleted. -/
theorem polled_of_sent (hunique : UniquePairs s.committed) (hview : s.view = s.committed)
    (hsent : ∀ m ∈ messages, ∃ u, u < 2 ^ 128 ∧ SentFor settings m.body u)
    (h : runTx (processBatch rt settings messages) s = (.ok (), s')) :
    (∀ m ∈ messages, ∀ u, SentFor settings m.body u → parsePairId rt m = .ok (some u))
      ∧ (∀ u, (∃ m ∈ messages, SentFor settings m.body u) →
        (Satisfied s s' u ↔ WillSatisfy rt messages s u)
          ∧ (WillSatisfy rt messages s u ↔
            ∃ m ∈ messages, SentFor settings m.body u ∧ Deleted s s' m))
      ∧ ∀ m, Deleted s s' m →
        m ∈ messages ∧ ∃ u, SentFor settings m.body u ∧ Satisfied s s' u := by
  have hread : ∀ m ∈ messages, ∀ u, SentFor settings m.body u → parsePairId rt m = .ok (some u) := by
    intro m hm u hu
    obtain ⟨v, hlt, hv⟩ := hsent m hm
    have huv : u = v := messageBody_inj ((body_of_sentFor hu).symm.trans (body_of_sentFor hv))
    exact parsePairId_of_sentFor (huv ▸ hlt) hu
  have hback : ∀ m ∈ messages, ∀ u, parsePairId rt m = .ok (some u) → SentFor settings m.body u := by
    intro m hm u hu
    obtain ⟨v, hlt, hv⟩ := hsent m hm
    rw [hread m hm v hv] at hu
    rw [← Option.some.inj (Except.ok.inj hu)]
    exact hv
  obtain ⟨byPairId, hc, hdeleted, hsatisfied⟩ := deleted_of_ok hunique hview h
  refine ⟨hread, ?_, ?_⟩
  · rintro u ⟨m, hm, hu⟩
    have hkey := mem_keys_collectMessages hc (Or.inr ⟨m, hm, hread m hm u hu⟩)
    refine ⟨hsatisfied u hkey, ?_⟩
    constructor
    · intro hwill
      obtain ⟨⟨v, last⟩, he, rfl⟩ := List.mem_map.mp hkey
      obtain ⟨hlast, hparse⟩ := collected_names hc he
      exact ⟨last, hlast, hback last hlast _ hparse, (hdeleted last).mpr ⟨_, he, hwill⟩⟩
    · rintro ⟨m', hm', hu', hdel⟩
      obtain ⟨v, he, hwill⟩ := (hdeleted m').mp hdel
      have hparse := (collected_names hc he).2
      rw [hread m' hm' u hu'] at hparse
      rw [Option.some.inj (Except.ok.inj hparse)]
      exact hwill
  · intro m hdel
    obtain ⟨u, he, hwill⟩ := (hdeleted m).mp hdel
    obtain ⟨hm, hparse⟩ := collected_names hc he
    have hkey : u ∈ byPairId.keys := List.mem_map.mpr ⟨(u, m), he, rfl⟩
    exact ⟨hm, u, hback m hm u hparse, (hsatisfied u hkey).mpr hwill⟩

end Pipeline

/-- A tick whose SELECT returns one pair sends for that pair. -/
theorem sentFor_messageBody (settings : Settings) (u : Uuid) :
    SentFor settings (messageBody u) u := by
  let pair : Pair := { id := u, krakenPairName := "XBT/USD", displayName := "XBT/USD" }
  have hshape : enqueueDuePairs settings
      = .step (.ask .utcNow) fun now => .step (.query fun db => duePairs db now) fun due =>
        if due.isEmpty then .done 0
        else .step (.ask .utcNow) fun claimedAt =>
          sendAll settings.defaultPollIntervalSeconds claimedAt due.length 0 due >>= fun _ =>
          claimAll claimedAt due >>= fun _ => .step .commit fun _ => .done due.length := rfl
  rw [SentFor, hshape]
  refine ⟨_, .ok 1, 0, staggerDelaySeconds 0 1 settings.defaultPollIntervalSeconds,
    .step _ _ 0 (.step _ _ [pair] (.step _ _ 0 (.step _ _ () (.step _ _ () (.step _ _ ()
      (.done 1)))))), ?_⟩
  simp [pair]

/-! ### A pair that was sent for twice -/

def sentTables : Database :=
  { pairs := [{ id := 1, krakenPairName := "XBT/USD", displayName := "XBT/USD" },
      { id := 2, krakenPairName := "ETH/USD", displayName := "ETH/USD" }] }

/-- Pair 1, pair 2 and pair 1 again. -/
def sentMessages : List Message :=
  [{ messageId := "1", receiptHandle := "1", body := messageBody 1 },
    { messageId := "2", receiptHandle := "2", body := messageBody 2 },
    { messageId := "3", receiptHandle := "3", body := messageBody 1 }]

def sentState : State :=
  { committed := sentTables
    view := sentTables
    mem := {}
    env := { clock := seconds 1000000020
             quotes := fun _ => some [("XBT/USD", spikeQuote), ("ETH/USD", spikeQuote)] } }

/-- The store after the batch of all three. -/
def sentAfter : State :=
  (runTx (processBatch Runtime.rational {} sentMessages) sentState).2

theorem polled_of_sent_twice :
    (∀ m ∈ sentMessages, ∀ u, SentFor {} m.body u →
        parsePairId Runtime.rational m = .ok (some u))
      ∧ (∀ u ∈ [1, 2], Satisfied sentState sentAfter u
        ∧ ∃ m ∈ sentMessages, SentFor {} m.body u ∧ Deleted sentState sentAfter m)
      ∧ ∀ m, Deleted sentState sentAfter m →
        m ∈ sentMessages ∧ ∃ u, SentFor {} m.body u ∧ Satisfied sentState sentAfter u := by
  have hunique : UniquePairs sentState.committed := ⟨by decide, by decide⟩
  have hrun : runTx (processBatch Runtime.rational {} sentMessages) sentState
      = (.ok (), sentAfter) := Prod.ext (by decide +kernel) rfl
  have hids : sentMessages.map Message.body = [1, 2, 1].map messageBody := rfl
  have hsent : ∀ m ∈ sentMessages, ∃ u, u < 2 ^ 128 ∧ SentFor {} m.body u := by
    intro m hm
    have hbody := List.mem_map_of_mem (f := Message.body) hm
    rw [hids] at hbody
    obtain ⟨u, hu, hbody⟩ := List.mem_map.mp hbody
    have hsmall : ∀ u ∈ [1, 2, 1], u < 2 ^ 128 := by decide
    exact ⟨u, hsmall u hu, hbody ▸ sentFor_messageBody {} u⟩
  obtain ⟨hread, hpolled, honly⟩ := polled_of_sent hunique rfl hsent hrun
  refine ⟨hread, ?_, honly⟩
  intro u hu
  have hrow : Satisfied sentState sentAfter u := by
    refine Or.inr ⟨sentAfter.committed.priceHistory, rfl, ?_⟩
    have hrows : ∀ u ∈ [1, 2],
        ∃ row ∈ sentAfter.committed.priceHistory, row.pairId = u := by
      decide +kernel
    exact hrows u hu
  have hsome : ∃ m ∈ sentMessages, SentFor {} m.body u := by
    have hbody : ∀ u ∈ [1, 2], ∃ m ∈ sentMessages, m.body = messageBody u := by decide +kernel
    obtain ⟨m, hm, heq⟩ := hbody u hu
    exact ⟨m, hm, heq ▸ sentFor_messageBody {} u⟩
  obtain ⟨hsatisfied, hdeleted⟩ := hpolled u hsome
  exact ⟨hrow, hdeleted.mp (hsatisfied.mp hrow)⟩

end Dropwatch.Poller
