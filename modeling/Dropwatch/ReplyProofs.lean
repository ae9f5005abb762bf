import Dropwatch.AckProofs
import Dropwatch.DocumentProofs

/-! # From Kraken's reply to the tables

    The numbers of a pair take the whole way in one batch: out of the text of a response,
    through `get_quotes`, into a row of `price_history`.  On that way none is taken for
    another, and the only rounding is that of the columns. -/

namespace Dropwatch.Poller

open Transact RuleIndex Kraken Provider

/-- The row of a line of the ticker. -/
def tickerRow (pair : Pair) (t : Instant) (info : TickerInfo) : PriceHistory where
  pairId := pair.id
  lastPrice := info.last.numeric 8
  bidPrice := info.bid.numeric 8
  askPrice := info.ask.numeric 8
  volume24h := some (info.volume24h.numeric 8)
  observedAt := t

section Batch

variable (rt : Runtime)

/-- The provider answers with what it reads of Kraken's reply, which has this ticker for
    the names it is asked. -/
def RepliesWith (quotes : List String → Option (Dict String Quote))
    (ticker : List String → Ticker) : Prop :=
  ∀ names, ∃ resp, Reply rt.nestingLimit resp (ticker names)
    ∧ quotes names = (resultOf rt.nestingLimit "/Ticker" resp >>= quotesOf).toOption

/-- The names that a batch asks for. -/
def Asks (messages : List Message) (s : State) (names : List String) : Prop :=
  ∃ byPairId, collectMessages rt messages [] = .ok byPairId ∧ livePart s.view byPairId ≠ []
    ∧ names = (messageByCanonical (livePart s.view byPairId)).keys

variable {rt} {settings : Settings} {messages : List Message} {s s' : State}
  {ticker : List String → Ticker}

/-- A batch that returns has stored what Kraken wrote.  Of every pair that it names and
    that is there, it has added one row, with the numbers of the pair's line in the ticker
    to eight places, or none where the ticker has no such line. -/
theorem stored_of_reply (hunique : UniquePairs s.committed) (hview : s.view = s.committed)
    (hkraken : RepliesWith rt s.env.quotes ticker)
    (h : runTx (processBatch rt settings messages) s = (.ok (), s')) :
    ∃ new, s'.committed.priceHistory = s.committed.priceHistory ++ new
      ∧ ∀ names, Asks rt messages s names → ∀ p ∈ s.committed.pairs,
        (∃ m ∈ messages, parsePairId rt m = .ok (some p.id)) →
          rowsOf p.id new = ((Dict.get? (ticker names).entries p.krakenPairName).map
            (tickerRow p s.env.clock)).toList := by
  have hunique' : UniquePairs s.view := hview ▸ hunique
  have hanswer : ∀ names, s.env.quotes names
      = some ((ticker names).entries.map (fun e => (e.1, quoteFrom e.1 e.2))) := by
    intro names
    obtain ⟨resp, hreply, hquotes⟩ := hkraken names
    rw [hquotes, hreply.quotes]
    rfl
  by_cases hobs : ∃ byPairId quotes, Observes rt s.view s.env.quotes messages byPairId quotes
  · obtain ⟨byPairId, quotes, hobserves⟩ := hobs
    obtain ⟨toDelete, s₁, hrun, rfl⟩ := processBatch_ok_inv hobserves h
    obtain ⟨new, hrows, hrecords, -⟩ := batchLoop_records hunique' hobserves.collected hrun
    refine ⟨new, hview ▸ hrows, ?_⟩
    rintro names ⟨byPairId', hcollected, -, rfl⟩ p hp hnamed
    obtain rfl := Except.ok.inj (hcollected.symm.trans hobserves.collected)
    obtain rfl := Option.some.inj ((hanswer _).symm.trans hobserves.quoted)
    obtain ⟨hquoted, hunquoted⟩ := hrecords p.id hnamed
    cases hline : Dict.get? (ticker _).entries p.krakenPairName with
    | none =>
        refine hunquoted ?_
        intro p' hp' hid
        have hsame : p' = p := List.inj_on_of_nodup_map hunique'.ids hp' (hview ▸ hp) hid
        rw [hsame, Dict.get?_map_key quoteFrom, hline]
        rfl
    | some info =>
        refine hquoted p (hview ▸ hp) rfl (quoteFrom p.krakenPairName info) ?_
        rw [Dict.get?_map_key quoteFrom, hline]
        rfl
  · -- Where a pair is live, the provider is asked and answers.
    have hidle : ∀ byPairId quotes, ¬ Observes rt s.view s.env.quotes messages byPairId quotes :=
      fun byPairId quotes hobserves => hobs ⟨byPairId, quotes, hobserves⟩
    have hcommitted := @runTx_processBatch_of_not_observes rt settings messages s hidle
    rw [h] at hcommitted
    refine ⟨[], by rw [hcommitted, List.append_nil], ?_⟩
    rintro names ⟨byPairId, hcollected, hlive, rfl⟩
    exact absurd ⟨hcollected, hlive, hanswer _⟩ (hidle byPairId _)

end Batch

/-! ## A reply -/

/-- What Kraken sends for a pair, to more places than a column has. -/
def replyText : String :=
  "\x7b\"error\":[],\"result\":\x7b\"XBT/USD\":\x7b\"a\":[\"101.5\"],\"b\":[\"99.5\"],"
    ++ "\"c\":[\"100.0000000049\"],\"v\":[\"1.0\",\"2.5\"],\"p\":[\"99.0\",\"100.0\"]\x7d\x7d\x7d"

/-- The value of the text. -/
def replyResult : Json.Value :=
  .obj [("XBT/USD", .obj
    [("p", .arr [.str "99.0", .str "100.0"]), ("v", .arr [.str "1.0", .str "2.5"]),
      ("c", .arr [.str "100.0000000049"]), ("b", .arr [.str "99.5"]),
      ("a", .arr [.str "101.5"])])]

def repliedTicker : Ticker where
  entries := [("XBT/USD", ⟨⟨false, 1000000000049, -10⟩, ⟨false, 995, -1⟩, ⟨false, 1015, -1⟩,
    ⟨false, 25, -1⟩, ⟨false, 1000, -1⟩⟩)]
  distinct := by decide

theorem text_reply :
    Json.Text 4 (.obj [("result", replyResult), ("error", .arr [])]) replyText := by
  have hone : ∀ s, Json.Phrase 1 (.value (.arr [.str s]))
      [.open true, .str s.toList, .close true] := fun s => .arr (.item (.str s))
  have htwo : ∀ s s', Json.Phrase 1 (.value (.arr [.str s, .str s']))
      [.open true, .str s.toList, .comma, .str s'.toList, .close true] :=
    fun s s' => (Json.Phrase.arr (n := 0) (.moreItems (.item (.str s)) (.str s')) :)
  have hentry := Json.Phrase.obj (.moreEntries (.moreEntries (.moreEntries (.moreEntries
    (.entry "a" (hone "101.5")) "b" (hone "99.5")) "c" (hone "100.0000000049"))
      "v" (htwo "1.0" "2.5")) "p" (htwo "99.0" "100.0"))
  refine ⟨_, .obj (.moreEntries (.entry "error" .noItems) "result"
    (.obj (.entry "XBT/USD" hentry))), ?_⟩
  refine (congrArg (Json.TokenText _) ?_).mp (.shown (by decide +kernel))
  decide +kernel

theorem reply_repliedTicker : Reply Runtime.rational.nestingLimit ⟨200, replyText⟩ repliedTicker where
  success := ⟨Nat.le_refl 200, by decide⟩
  text := by
    refine ⟨4, _, by decide, text_reply, _, rfl, List.forall₂_cons.mpr ⟨⟨rfl, ?_⟩, List.Forall₂.nil⟩⟩
    exact ⟨⟨_, _, rfl, rfl, by decide +kernel⟩, ⟨_, _, rfl, rfl, by decide +kernel⟩,
      ⟨_, _, rfl, rfl, by decide +kernel⟩, ⟨_, _, rfl, rfl, by decide +kernel⟩,
      ⟨_, _, rfl, rfl, by decide +kernel⟩⟩

/-- The provider hands on what it reads of the reply. -/
def repliedState : State :=
  { spikeState with env := { spikeState.env with
      quotes := fun _ => (resultOf Runtime.rational.nestingLimit "/Ticker" ⟨200, replyText⟩
        >>= quotesOf).toOption } }

/-- Where the batch leaves it. -/
def repliedAfter : State := (runTx (processBatch Runtime.rational {} [spikeMessage]) repliedState).2

theorem stored_of_reply_spike :
    ∃ new, repliedAfter.committed.priceHistory = repliedState.committed.priceHistory ++ new
      ∧ rowsOf 1 new = [⟨1, ⟨false, 10000000000, -8⟩, ⟨false, 9950000000, -8⟩,
        ⟨false, 10150000000, -8⟩, some ⟨false, 250000000, -8⟩, seconds 1000000020⟩] := by
  have hunique : UniquePairs repliedState.committed := ⟨by decide, by decide⟩
  have hkraken : RepliesWith Runtime.rational repliedState.env.quotes (fun _ => repliedTicker) :=
    fun _ => ⟨⟨200, replyText⟩, reply_repliedTicker, by rw [repliedState]⟩
  have hrun : runTx (processBatch Runtime.rational {} [spikeMessage]) repliedState
      = (.ok (), repliedAfter) := Prod.ext (by decide +kernel) (by rw [repliedAfter])
  have hparse : parsePairId Runtime.rational spikeMessage = .ok (some 1) := by decide +kernel
  have hasks : Asks Runtime.rational [spikeMessage] repliedState ["XBT/USD"] :=
    ⟨[(1, spikeMessage)], by rw [collectMessages, hparse]; rfl, by decide +kernel,
      by decide +kernel⟩
  obtain ⟨new, hnew, hrows⟩ := stored_of_reply hunique rfl hkraken hrun
  have hpair : { id := 1, krakenPairName := "XBT/USD", displayName := "XBT/USD" }
      ∈ repliedState.committed.pairs := List.mem_cons_self
  refine ⟨new, hnew, ?_⟩
  rw [hrows _ hasks _ hpair ⟨spikeMessage, List.mem_cons_self, hparse⟩]
  decide +kernel

end Dropwatch.Poller
