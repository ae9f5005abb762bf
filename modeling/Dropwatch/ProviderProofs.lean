import Dropwatch.Lib.LockOrder
import Dropwatch.Lib.Pacing
import Dropwatch.Provider
import Dropwatch.WsnameProofs

/-! # One client, many callers

    Two locks order the coroutines of the client.  What is behind the throttle's lock is
    the time of the last stamp: every request leaves in the stretch that wrote its stamp
    down, before anybody else moves, so requests are paced.  What is behind the other is
    the table of asset pairs and the request for it: one at a time, and none any more once
    a table is there, so every symbol resolves to the same pair for the client's
    lifetime. -/

namespace Dropwatch.Provider

open Transact Asyncio Kraken Pacing

/-- The frame of the client's loop. -/
abbrev ClientFrame : Type := Frame Fields Lock ℚ Out Response Failure

abbrev ClientEvent : Type := Event ℚ Out Response Failure

/-! ## What the events tell -/

/-- The times of the requests, in order. -/
def requestTimes (hist : List ClientEvent) : List ℚ :=
  hist.filterMap (fun e => match e with
    | .sent _ t (.get ..) => some t
    | _ => none)

/-- A request for the table of asset pairs, or an answer to one, with the table if it is
    usable. -/
inductive Fetch where
  | asked
  | got (table : Option Json.Value)

section Events

variable (params : Params)

/-- The table that an answer carries. -/
def tableIn : Except Failure Response → Option Json.Value
  | .error _ => none
  | .ok resp =>
      match resultOf params.nestingLimit "/AssetPairs" resp with
      | .error _ => none
      | .ok table => cacheable table

/-- The requests for the table and their answers, in order. -/
def fetches (hist : List ClientEvent) : List Fetch :=
  hist.filterMap (fun e => match e with
    | .sent _ _ (.get url _) => if url = params.url "/AssetPairs" then some .asked else none
    | .received _ _ (.get url _) r =>
        if url = params.url "/AssetPairs" then some (.got (tableIn params r)) else none
    | _ => none)

/-- The log of the fetches, with the table that came of them and whether one is under
    way: after a table there are no more. -/
inductive Fetching : Option Json.Value → Bool → List Fetch → Prop where
  | start : Fetching none false []
  | asked {log : List Fetch} (h : Fetching none false log) : Fetching none true (log ++ [.asked])
  | got {log : List Fetch} (table : Option Json.Value) (h : Fetching none true log) :
      Fetching table false (log ++ [.got table])

/-- A table of the log. -/
def Known (table : Json.Value) (hist : List ClientEvent) : Prop :=
  .got (some table) ∈ fetches params hist

/-- Kraken has answered a request of call `i` with this result. -/
def Replied (i : Nat) (path : String) (query : List (String × String)) (result : Json.Value)
    (hist : List ClientEvent) : Prop :=
  ∃ t resp, .received i t (.get (params.url path) query) (.ok resp) ∈ hist
    ∧ resultOf params.nestingLimit path resp = .ok result

/-- Where the outcome of call `i` comes from. -/
def Justified (u : Unicode) (iter : SetOrder) (i : Nat) (hist : List ClientEvent) : Answer → Prop
  | .resolved symbol (.ok resolved) =>
      ∃ table, Known params table hist ∧ resolveIn u iter table symbol = .ok resolved
  | .quoted names (.ok quotes) =>
      ∃ result, Replied params i "/Ticker" [("pair", ",".intercalate names)] result hist
        ∧ quotesOf result = .ok quotes
  | .surveyed (.ok snapshot) =>
      ∃ table assetPairs result, Known params table hist ∧ assetPairsOf table = .ok assetPairs
        ∧ Replied params i "/Ticker" [] result hist ∧ snapshotOf assetPairs result = .ok snapshot
  | _ => True

end Events

variable {params : Params} {u : Unicode} {iter : SetOrder} {world : World} {i : Nat}
  {hist : List ClientEvent} {log : List Fetch} {cache : Option Json.Value} {pending : Bool}

@[simp] theorem requestTimes_append (hist hist' : List ClientEvent) :
    requestTimes (hist ++ hist') = requestTimes hist ++ requestTimes hist' :=
  List.filterMap_append

@[simp] theorem fetches_append (hist hist' : List ClientEvent) :
    fetches params (hist ++ hist') = fetches params hist ++ fetches params hist' :=
  List.filterMap_append

theorem url_ne : params.url "/Ticker" ≠ params.url "/AssetPairs" := by
  intro h
  have hchars := congrArg String.toList h
  rw [Params.url, Params.url, String.toList_append, String.toList_append] at hchars
  exact absurd (List.append_cancel_left hchars) (by decide)

/-- The table that came of the fetches is in their log. -/
theorem Fetching.mem {table : Json.Value} (h : Fetching (some table) pending log) :
    .got (some table) ∈ log := by
  cases h with
  | got table h => exact List.mem_append_right _ (List.mem_singleton_self _)

/-- There is only one. -/
theorem Fetching.unique {table : Json.Value} (h : Fetching cache pending log)
    (hmem : .got (some table) ∈ log) : cache = some table := by
  induction h with
  | start => exact absurd hmem List.not_mem_nil
  | asked h ih =>
      rcases List.mem_append.mp hmem with hmem | hmem
      · cases ih hmem
      · cases List.mem_singleton.mp hmem
  | got table' h ih =>
      rcases List.mem_append.mp hmem with hmem | hmem
      · cases ih hmem
      · exact (Fetch.got.inj (List.mem_singleton.mp hmem)).symm

theorem Known.mono {table : Json.Value} (h : Known params table hist)
    (hist' : List ClientEvent) : Known params table (hist ++ hist') := by
  rw [Known, fetches_append]
  exact List.mem_append_left _ h

theorem Replied.mono {path : String} {query : List (String × String)} {result : Json.Value}
    (h : Replied params i path query result hist) (hist' : List ClientEvent) :
    Replied params i path query result (hist ++ hist') := by
  obtain ⟨t, resp, hmem, hresult⟩ := h
  exact ⟨t, resp, List.mem_append_left _ hmem, hresult⟩

theorem Justified.mono {a : Answer} (h : Justified params u iter i hist a)
    (hist' : List ClientEvent) : Justified params u iter i (hist ++ hist') a := by
  cases a with
  | resolved symbol outcome =>
      cases outcome with
      | error e => exact trivial
      | ok resolved =>
          obtain ⟨table, hknown, hresolve⟩ := h
          exact ⟨table, hknown.mono hist', hresolve⟩
  | quoted names outcome =>
      cases outcome with
      | error e => exact trivial
      | ok quotes =>
          obtain ⟨result, hreplied, hquotes⟩ := h
          exact ⟨result, hreplied.mono hist', hquotes⟩
  | surveyed outcome =>
      cases outcome with
      | error e => exact trivial
      | ok snapshot =>
          obtain ⟨table, assetPairs, result, hknown, hpairs, hreplied, hsnapshot⟩ := h
          exact ⟨table, assetPairs, result, hknown.mono hist', hpairs, hreplied.mono hist',
            hsnapshot⟩

/-! ## The monitor -/

section Monitor

variable (params : Params) (u : Unicode) (iter : SetOrder) (world : World)

/-- The spacing of the stamps: a world may fire early. -/
def spacing : ℚ := params.minInterval - world.resolution

/-- Requests are paced up to the last stamp. -/
structure Pace (f : ClientFrame) : Prop where
  paced : Paced (spacing params world) (requestTimes f.hist) f.mem.lastRequestAt
  past : ∀ t ∈ requestTimes f.hist, t ≤ f.clock

/-- The cache is what came of the fetches; one that is under way has the lock. -/
def Book (f : ClientFrame) : Prop :=
  ∃ pending, Fetching f.mem.assetPairsCache pending (fetches params f.hist)
    ∧ (pending = true → f.owner .assetPairs ≠ none)

/-- What the events so far say at every moment. -/
structure Lawful (hist : List ClientEvent) : Prop where
  paced : ∃ last, Paced (spacing params world) (requestTimes hist) last
  fetching : ∃ cache pending, Fetching cache pending (fetches params hist)
  justified : ∀ j t a, .sent j t (.answer a) ∈ hist → Justified params u iter j hist a

/-- What the others do to task `i`: nothing to what is behind a lock that it holds. -/
structure Others (i : Nat) (f f' : ClientFrame) : Prop where
  clock : f.clock ≤ f'.clock
  hist : f.hist <+: f'.hist
  throttle : f.owner .throttle = some i →
    f'.owner .throttle = some i ∧ f'.mem.lastRequestAt = f.mem.lastRequestAt
  assetPairs : f.owner .assetPairs = some i →
    f'.owner .assetPairs = some i ∧ f'.mem.assetPairsCache = f.mem.assetPairsCache
      ∧ fetches params f'.hist = fetches params f.hist

variable {params u iter world}

theorem Others.refl (i : Nat) (f : ClientFrame) : Others params i f f where
  clock := le_rfl
  hist := List.prefix_rfl
  throttle := fun h => ⟨h, rfl⟩
  assetPairs := fun h => ⟨h, rfl, rfl⟩

theorem Others.trans {f f' f'' : ClientFrame} (h : Others params i f f')
    (h' : Others params i f' f'') : Others params i f f'' where
  clock := h.clock.trans h'.clock
  hist := h.hist.trans h'.hist
  throttle := by
    intro hown
    obtain ⟨hown', hlast⟩ := h.throttle hown
    obtain ⟨hown'', hlast'⟩ := h'.throttle hown'
    exact ⟨hown'', hlast'.trans hlast⟩
  assetPairs := by
    intro hown
    obtain ⟨hown', hcache, hfetches⟩ := h.assetPairs hown
    obtain ⟨hown'', hcache', hfetches'⟩ := h'.assetPairs hown'
    exact ⟨hown'', hcache'.trans hcache, hfetches'.trans hfetches⟩

theorem Others.tick {f f' : ClientFrame} (h : Ticked f f') : Others params i f f' := by
  obtain ⟨t, ht, rfl⟩ := h
  exact { Others.refl i f with clock := ht }

variable (params u iter world)

/-- The requests are paced and the table is fetched once, whoever runs. -/
def monitor : Monitor (client params u iter world) where
  J := fun f => Pace params world f ∧ Book params f
  R := Others params
  Own := fun i f f' => (∀ j, j ≠ i → Others params j f f')
    ∧ (Lawful params u iter world f.hist → Lawful params u iter world f'.hist)
  refl := Others.refl
  trans := Others.trans
  ticks := Others.tick
  keeps := by
    rintro f f' ⟨hpace, hbook⟩ ⟨t, ht, rfl⟩
    exact ⟨⟨hpace.paced, fun t' ht' => (hpace.past t' ht').trans ht⟩, hbook⟩
  others := fun _ hown hj => hown.1 _ hj

variable {params u iter world}

/-! ### What an operation does to the others -/

theorem own_self (f : ClientFrame) : (monitor params u iter world).Own i f f :=
  ⟨fun j _ => Others.refl j f, id⟩

/-- Taking a free lock, or giving one back. -/
theorem own_lock {f : ClientFrame} {l : Lock} {o : Option Nat}
    (h : f.owner l = none ∨ f.owner l = some i) :
    (monitor params u iter world).Own i f (f.setOwner l o) := by
  refine ⟨?_, id⟩
  intro j hj
  have hkeep : ∀ l', f.owner l' = some j → (f.setOwner l o).owner l' = some j := by
    intro l' hl'
    have hne : l' ≠ l := by
      rintro rfl
      rcases h with hnone | hsome
      · rw [hnone] at hl'
        cases hl'
      · rw [hsome] at hl'
        exact hj (Option.some.inj hl').symm
    exact (f.setOwner_of_ne hne o).trans hl'
  exact
    { clock := le_rfl
      hist := List.prefix_rfl
      throttle := fun hown => ⟨hkeep _ hown, rfl⟩
      assetPairs := fun hown => ⟨hkeep _ hown, rfl, rfl⟩ }

/-- Writing a field behind a lock that the task holds. -/
theorem own_fields {f : ClientFrame} {p : Fields}
    (hlast : p.lastRequestAt ≠ f.mem.lastRequestAt → f.owner .throttle = some i)
    (hcache : p.assetPairsCache ≠ f.mem.assetPairsCache → f.owner .assetPairs = some i) :
    (monitor params u iter world).Own i f (f.setMem p) := by
  refine ⟨?_, id⟩
  intro j hj
  refine { clock := le_rfl, hist := List.prefix_rfl, throttle := ?_, assetPairs := ?_ }
  · intro hown
    refine ⟨hown, ?_⟩
    by_contra hne
    exact hj (Option.some.inj (hown.symm.trans (hlast hne)))
  · intro hown
    refine ⟨hown, ?_, rfl⟩
    by_contra hne
    exact hj (Option.some.inj (hown.symm.trans (hcache hne)))

/-- Noting an event: one about the table needs its lock. -/
theorem own_note {f : ClientFrame} {e : ClientEvent}
    (hfetch : fetches params [e] ≠ [] → f.owner .assetPairs = some i)
    (hlawful : Lawful params u iter world f.hist → Lawful params u iter world (f.hist ++ [e])) :
    (monitor params u iter world).Own i f (f.note e) := by
  refine ⟨?_, hlawful⟩
  intro j hj
  refine { clock := le_rfl, hist := List.prefix_append _ _, throttle := fun hown => ⟨hown, rfl⟩
           assetPairs := ?_ }
  intro hown
  refine ⟨hown, rfl, ?_⟩
  show fetches params (f.hist ++ [e]) = _
  rw [fetches_append]
  by_cases hnil : fetches params [e] = []
  · rw [hnil, List.append_nil]
  · exact absurd (Option.some.inj (hown.symm.trans (hfetch hnil))) hj

/-- An event that is no request, nothing about the table, and justified. -/
theorem Lawful.note {e : ClientEvent} (h : Lawful params u iter world hist)
    (htimes : requestTimes [e] ≠ [] →
      ∃ last, Paced (spacing params world) (requestTimes (hist ++ [e])) last)
    (hfetches : fetches params [e] ≠ [] →
      ∃ cache pending, Fetching cache pending (fetches params (hist ++ [e])))
    (hanswer : ∀ j t a, e = .sent j t (.answer a) → Justified params u iter j hist a) :
    Lawful params u iter world (hist ++ [e]) where
  paced := by
    by_cases hnil : requestTimes [e] = []
    · rw [requestTimes_append, hnil, List.append_nil]
      exact h.paced
    · exact htimes hnil
  fetching := by
    by_cases hnil : fetches params [e] = []
    · rw [fetches_append, hnil, List.append_nil]
      exact h.fetching
    · exact hfetches hnil
  justified := by
    intro j t a hmem
    rcases List.mem_append.mp hmem with hmem | hmem
    · exact (h.justified j t a hmem).mono [e]
    · exact (hanswer j t a (List.mem_singleton.mp hmem).symm).mono [e]

/-! ### Where a call may be suspended -/

variable (params world)

/-- The books are in order.  A call that is filling the cache (`filling`) has the lock of the
    table and no request of its own under way; what it knows of the past (`K`) stays true. -/
structure Resting (K : List ClientEvent → Prop) (filling : Bool) (i : Nat) (f : ClientFrame) :
    Prop where
  pace : Pace params world f
  book : Book params f
  filling : filling = true → f.owner .assetPairs = some i ∧ f.mem.assetPairsCache = none
    ∧ Fetching none false (fetches params f.hist)
  known : K f.hist

/-- What is said of the past stays true. -/
def Lasting (K : List ClientEvent → Prop) : Prop := ∀ h h', K h → K (h ++ h')

variable {params world} {K : List ClientEvent → Prop} {filling : Bool} {f f' : ClientFrame}

theorem Lasting.others (hK : Lasting K) (h : K f.hist) (hr : Others params i f f') :
    K f'.hist := by
  obtain ⟨es, hes⟩ := hr.hist
  rw [← hes]
  exact hK f.hist es h

theorem Resting.others (hK : Lasting K) (h : Resting params world K filling i f)
    (hr : Others params i f f') (hJ : (monitor params u iter world).J f') :
    Resting params world K filling i f' where
  pace := hJ.1
  book := hJ.2
  filling := by
    intro hfill
    obtain ⟨hown, hcache, hlog⟩ := h.filling hfill
    obtain ⟨hown', hcache', hfetches⟩ := hr.assetPairs hown
    exact ⟨hown', hcache'.trans hcache, by rw [hfetches]; exact hlog⟩
  known := hK.others h.known hr

theorem Resting.tick (h : Resting params world K filling i f) (hf : Ticked f f') :
    Resting params world K filling i f' := by
  obtain ⟨t, ht, rfl⟩ := hf
  exact ⟨⟨h.pace.paced, fun t' ht' => (h.pace.past t' ht').trans ht⟩, h.book, h.filling, h.known⟩

/-- The throttle's lock is nothing the books speak of. -/
theorem Resting.setThrottle (h : Resting params world K filling i f) (o : Option Nat) :
    Resting params world K filling i (f.setOwner .throttle o) where
  pace := ⟨h.pace.paced, h.pace.past⟩
  book := by
    obtain ⟨pending, hlog, hown⟩ := h.book
    exact ⟨pending, hlog, hown⟩
  filling := h.filling
  known := h.known

variable (params world)

/-- The stamp of a request that is about to leave. -/
structure Ready (K : List ClientEvent → Prop) (filling : Bool) (i : Nat) (f : ClientFrame) :
    Prop where
  stamped : Stamped (spacing params world) (requestTimes f.hist) f.mem.lastRequestAt
  past : f.mem.lastRequestAt ≤ f.clock
  book : Book params f
  filling : filling = true → f.owner .assetPairs = some i ∧ f.mem.assetPairsCache = none
    ∧ Fetching none false (fetches params f.hist)
  known : K f.hist

variable {params world}

theorem Ready.tick (h : Ready params world K filling i f) (hf : Ticked f f') :
    Ready params world K filling i f' := by
  obtain ⟨t, ht, rfl⟩ := hf
  exact ⟨h.stamped, h.past.trans ht, h.book, h.filling, h.known⟩

/-! ### The throttle -/

/-- A wait of `wait` after `now` is over when the last stamp is old enough. -/
theorem triple_sleepFor (hK : Lasting K) {now last wait : ℚ}
    (hwait : wait = last + params.minInterval - now) :
    (monitor params u iter world).Triple i
      (fun f => Resting params world K filling i f ∧ f.owner .throttle = some i ∧ now ≤ f.clock
        ∧ f.mem.lastRequestAt = last)
      (sleepFor wait)
      (fun r f => Resting params world K filling i f ∧ f.owner .throttle = some i
        ∧ (r = .ok () → f.mem.lastRequestAt + spacing params world ≤ f.clock)) := by
  have hnonneg := world.nonneg
  rw [sleepFor]
  by_cases hpos : 0 < wait
  · rw [if_pos hpos]
    refine Monitor.Triple.step
      (S := fun t f => Resting params world K filling i f ∧ f.owner .throttle = some i ∧ now ≤ t
        ∧ f.mem.lastRequestAt = last) rfl ?_ ?_ ?_
    · rintro f f' ⟨hrest, hown, hnow, hlast⟩ hf
      refine ⟨hrest.tick hf, ?_⟩
      obtain ⟨t, ht, rfl⟩ := hf
      exact ⟨hown, hnow.trans ht, hlast⟩
    · rintro f b f' ⟨hrest, hown, hnow, hlast⟩ ⟨rfl, rfl⟩
      exact ⟨own_self f', hrest, hown, hnow, hlast⟩
    · intro t
      refine Monitor.Triple.await
        (B := fun f => Resting params world K filling i f ∧ f.owner .throttle = some i ∧ now ≤ t
          ∧ f.mem.lastRequestAt = last) rfl ?_ ?_ ?_
      · rintro f ⟨hrest, -⟩
        exact ⟨hrest.pace, hrest.book⟩
      · rintro f f' ⟨hrest, hown, hnow, hlast⟩ hr hJ
        obtain ⟨hown', hlast'⟩ := hr.throttle hown
        exact ⟨hrest.others hK hr hJ, hown', hnow, hlast'.trans hlast⟩
      · rintro f r f' - ⟨hrest, hown, hnow, hlast⟩ he
        cases r with
        | error e =>
            obtain ⟨-, rfl⟩ := he
            exact ⟨own_self f', hrest, hown, fun h => by cases h⟩
        | ok _ =>
            obtain ⟨hdue, rfl⟩ := he
            refine ⟨own_self f', hrest, hown, fun _ => ?_⟩
            -- `asyncio.sleep` returns no earlier than the resolution of the clock allows.
            have hdue' : t + wait ≤ f'.clock + world.resolution := hdue
            rw [hlast, spacing]
            linarith
  · rw [if_neg hpos]
    refine Monitor.Triple.done ?_
    rintro f ⟨hrest, hown, hnow, hlast⟩
    refine ⟨hrest, hown, fun _ => ?_⟩
    rw [hlast, spacing]
    linarith

theorem triple_spaceOut (hK : Lasting K) :
    (monitor params u iter world).Triple i
      (fun f => Resting params world K filling i f ∧ f.owner .throttle = some i)
      (spaceOut params)
      (fun r f => f.owner .throttle = some i ∧ match r with
        | .ok _ => Ready params world K filling i f
        | .error _ => Resting params world K filling i f) := by
  -- The clock is read, then the last stamp.
  refine Monitor.Triple.step
    (S := fun now f => Resting params world K filling i f ∧ f.owner .throttle = some i
      ∧ now ≤ f.clock) rfl ?_ ?_ (fun now => ?_)
  · rintro f f' ⟨hrest, hown⟩ hf
    refine ⟨hrest.tick hf, ?_⟩
    obtain ⟨t, -, rfl⟩ := hf
    exact hown
  · rintro f b f' ⟨hrest, hown⟩ ⟨rfl, rfl⟩
    exact ⟨own_self f', hrest, hown, le_rfl⟩
  refine Monitor.Triple.step
    (S := fun last f => Resting params world K filling i f ∧ f.owner .throttle = some i
      ∧ now ≤ f.clock ∧ f.mem.lastRequestAt = last) rfl ?_ ?_ (fun last => ?_)
  · rintro f f' ⟨hrest, hown, hnow⟩ hf
    refine ⟨hrest.tick hf, ?_⟩
    obtain ⟨t, ht, rfl⟩ := hf
    exact ⟨hown, hnow.trans ht⟩
  · rintro f b f' ⟨hrest, hown, hnow⟩ ⟨rfl, rfl⟩
    exact ⟨own_self f, hrest, hown, hnow, rfl⟩
  refine Monitor.Triple.bind (triple_sleepFor hK rfl) (fun _ => ?_) ?_
  -- The wait is over; nobody else has written a stamp meanwhile.
  · refine Monitor.Triple.step
      (S := fun t f => (Resting params world K filling i f ∧ f.owner .throttle = some i
          ∧ f.mem.lastRequestAt + spacing params world ≤ t)
        ∧ t ≤ f.clock ∧ ∀ t' ∈ requestTimes f.hist, t' ≤ t) rfl ?_ ?_ (fun t => ?_)
    · rintro f f' ⟨hrest, hown, hdue⟩ hf
      refine ⟨hrest.tick hf, ?_⟩
      obtain ⟨t, ht, rfl⟩ := hf
      exact ⟨hown, fun h => (hdue h).trans ht⟩
    · rintro f b f' ⟨hrest, hown, hdue⟩ ⟨rfl, rfl⟩
      exact ⟨own_self f', ⟨hrest, hown, hdue rfl⟩, le_rfl, hrest.pace.past⟩
    refine Monitor.Triple.call rfl ?_ ?_
    · rintro f f' ⟨⟨hrest, hown, hdue⟩, hle, hpast⟩ hf
      refine ⟨⟨hrest.tick hf, ?_⟩, ?_⟩
      · obtain ⟨t', -, rfl⟩ := hf
        exact ⟨hown, hdue⟩
      · obtain ⟨t', ht', rfl⟩ := hf
        exact ⟨hle.trans ht', hpast⟩
    · rintro f b f' ⟨⟨hrest, hown, hdue⟩, hle, hpast⟩ ⟨-, rfl⟩
      refine ⟨own_fields (fun _ => hown) (fun h => absurd rfl h), hown, ?_⟩
      exact
        { stamped := hrest.pace.paced.stamped hdue hpast
          past := hle
          book := hrest.book
          filling := hrest.filling
          known := hrest.known }
  · rintro e f ⟨hrest, hown, -⟩
    exact ⟨hown, hrest⟩

/-- The throttle lets a request through with a stamp of its own, or is given up. -/
theorem triple_throttle (hK : Lasting K) :
    (monitor params u iter world).Triple i (Resting params world K filling i) (throttle params)
      (fun r f => match r with
        | .ok _ => Ready params world K filling i f
        | .error _ => Resting params world K filling i f) := by
  have hbody : (monitor params u iter world).Triple i
      (fun f => Resting params world K filling i f ∧ f.owner .throttle = some i)
      (spaceOut params) _ := triple_spaceOut hK
  refine Monitor.Triple.withLock (fun f h => ⟨h.pace, h.book⟩) (fun f f' h => h.others hK) ?_ ?_
    hbody ?_ ?_
  · intro f _ hrest hfree
    exact ⟨own_lock (Or.inl hfree), hrest.setThrottle _, f.setOwner_self _ _⟩
  · intro f e _ hrest
    exact ⟨own_self f, hrest⟩
  · rintro r f f' ⟨hown, hpost⟩ hf
    constructor
    · obtain ⟨t, -, rfl⟩ := hf
      exact hown
    · cases r with
      | ok _ => exact Ready.tick hpost hf
      | error e => exact Resting.tick hpost hf
  · rintro r f ⟨hown, hpost⟩
    refine ⟨own_lock (Or.inr hown), ?_⟩
    cases r with
    | ok _ =>
        have hready : Ready params world K filling i f := hpost
        exact ⟨hready.stamped, hready.past, hready.book, hready.filling, hready.known⟩
    | error e => exact Resting.setThrottle hpost none

/-! ### Requests -/

variable (params world)

/-- A request is under way. -/
structure Asked (K : List ClientEvent → Prop) (filling : Bool) (i : Nat) (f : ClientFrame) :
    Prop where
  pace : Pace params world f
  book : Book params f
  filling : filling = true → f.owner .assetPairs = some i ∧ f.mem.assetPairsCache = none
    ∧ Fetching none true (fetches params f.hist)
  known : K f.hist

/-- A request has been answered, and nothing has been made of the answer yet. -/
structure Answered (K : List ClientEvent → Prop) (filling : Bool) (i : Nat)
    (table : Option Json.Value) (f : ClientFrame) : Prop where
  pace : Pace params world f
  book : filling = false → Book params f
  filling : filling = true → f.owner .assetPairs = some i ∧ f.mem.assetPairsCache = none
    ∧ Fetching table false (fetches params f.hist)
  known : K f.hist

variable {params world} {url : String} {query : List (String × String)}

theorem Asked.others (hK : Lasting K) (h : Asked params world K filling i f)
    (hr : Others params i f f') (hJ : (monitor params u iter world).J f') :
    Asked params world K filling i f' where
  pace := hJ.1
  book := hJ.2
  filling := by
    intro hfill
    obtain ⟨hown, hcache, hlog⟩ := h.filling hfill
    obtain ⟨hown', hcache', hfetches⟩ := hr.assetPairs hown
    exact ⟨hown', hcache'.trans hcache, by rw [hfetches]; exact hlog⟩
  known := hK.others h.known hr

theorem fetches_get (i : Nat) (t : ℚ) :
    fetches params [.sent i t (.get url query)]
      = if url = params.url "/AssetPairs" then [.asked] else [] := by
  by_cases hurl : url = params.url "/AssetPairs"
  · rw [if_pos hurl]
    exact List.filterMap_cons_some (if_pos hurl)
  · rw [if_neg hurl]
    exact List.filterMap_cons_none (if_neg hurl)

theorem fetches_received (i : Nat) (t : ℚ) (r : Except Failure Response) :
    fetches params [.received i t (.get url query) r]
      = if url = params.url "/AssetPairs" then [.got (tableIn params r)] else [] := by
  by_cases hurl : url = params.url "/AssetPairs"
  · rw [if_pos hurl]
    exact List.filterMap_cons_some (if_pos hurl)
  · rw [if_neg hurl]
    exact List.filterMap_cons_none (if_neg hurl)

/-- A request leaves with its stamp; one for the table leaves with the lock. -/
theorem Ready.emit (hK : Lasting K) (hfill : filling = true ↔ url = params.url "/AssetPairs")
    (h : Ready params world K filling i f) :
    (monitor params u iter world).Own i f (f.note (.sent i f.clock (.get url query)))
      ∧ Asked params world K filling i (f.note (.sent i f.clock (.get url query))) := by
  have htimes : requestTimes (f.hist ++ [.sent i f.clock (.get url query)])
      = requestTimes f.hist ++ [f.clock] := requestTimes_append _ _
  have hpaced : Paced (spacing params world) (requestTimes f.hist ++ [f.clock])
      f.mem.lastRequestAt := h.stamped f.clock h.past
  have hpast : ∀ t ∈ requestTimes f.hist ++ [f.clock], t ≤ f.clock := by
    intro t ht
    rcases List.mem_append.mp ht with ht | ht
    · exact (h.stamped.before t ht).trans h.past
    · exact (List.mem_singleton.mp ht).le
  have hpace : Pace params world (f.note (.sent i f.clock (.get url query))) :=
    ⟨by rw [← htimes] at hpaced; exact hpaced, by rw [← htimes] at hpast; exact hpast⟩
  have hanswer : ∀ j t a, (.sent i f.clock (.get url query) : ClientEvent) = .sent j t (.answer a) →
      Justified params u iter j f.hist a := fun j t a he => by cases he
  have hlasting := hK f.hist [.sent i f.clock (.get url query)] h.known
  cases hfilling : filling with
  | true =>
      obtain ⟨hown, hcache, hlog⟩ := h.filling hfilling
      have hfetches : fetches params (f.hist ++ [.sent i f.clock (.get url query)])
          = fetches params f.hist ++ [.asked] := by
        rw [fetches_append, fetches_get, if_pos (hfill.mp hfilling)]
      have hasked := hlog.asked
      rw [← hfetches] at hasked
      refine ⟨own_note (fun _ => hown) ?_, hpace, ?_, fun _ => ⟨hown, hcache, hasked⟩, hlasting⟩
      · exact fun hl => hl.note (fun _ => ⟨_, hpace.paced⟩) (fun _ => ⟨none, true, hasked⟩) hanswer
      · refine ⟨true, ?_, fun _ => ?_⟩
        · show Fetching f.mem.assetPairsCache true _
          rw [hcache]
          exact hasked
        · show f.owner .assetPairs ≠ none
          rw [hown]
          exact Option.some_ne_none i
  | false =>
      -- Another request than that for the table leaves the log of the fetches as it was.
      have hurl : url ≠ params.url "/AssetPairs" := by
        intro hurl
        rw [hfill.mpr hurl] at hfilling
        cases hfilling
      have hnil : fetches params [.sent i f.clock (.get url query)] = [] := by
        rw [fetches_get, if_neg hurl]
      refine ⟨own_note (fun hne => absurd hnil hne) ?_, hpace, ?_, (fun h => by cases h), hlasting⟩
      · exact fun hl => hl.note (fun _ => ⟨_, hpace.paced⟩) (fun hne => absurd hnil hne) hanswer
      · obtain ⟨pending, hlog, hown⟩ := h.book
        refine ⟨pending, ?_, hown⟩
        show Fetching f.mem.assetPairsCache pending (fetches params (f.hist ++ [_]))
        rw [fetches_append, hnil, List.append_nil]
        exact hlog

/-- The answer to a request for the table says whether there is one now. -/
theorem Asked.receive (hK : Lasting K) (hfill : filling = true ↔ url = params.url "/AssetPairs")
    (h : Asked params world K filling i f) (r : Except Failure Response) :
    (monitor params u iter world).Own i f (f.note (.received i f.clock (.get url query) r))
      ∧ Answered params world K filling i (tableIn params r)
        (f.note (.received i f.clock (.get url query) r)) := by
  have htimes : requestTimes [.received i f.clock (.get url query) r] = [] := rfl
  have hpace : Pace params world (f.note (.received i f.clock (.get url query) r)) := by
    refine ⟨?_, ?_⟩
    · show Paced _ (requestTimes (f.hist ++ [_])) _
      rw [requestTimes_append, htimes, List.append_nil]
      exact h.pace.paced
    · show ∀ t ∈ requestTimes (f.hist ++ [_]), t ≤ f.clock
      rw [requestTimes_append, htimes, List.append_nil]
      exact h.pace.past
  have hanswer : ∀ j t a, (.received i f.clock (.get url query) r : ClientEvent)
      = .sent j t (.answer a) → Justified params u iter j f.hist a := fun j t a he => by cases he
  have hlasting := hK f.hist [.received i f.clock (.get url query) r] h.known
  cases hfilling : filling with
  | true =>
      obtain ⟨hown, hcache, hlog⟩ := h.filling hfilling
      have hfetches : fetches params (f.hist ++ [.received i f.clock (.get url query) r])
          = fetches params f.hist ++ [.got (tableIn params r)] := by
        rw [fetches_append, fetches_received, if_pos (hfill.mp hfilling)]
      have hgot := hlog.got (tableIn params r)
      rw [← hfetches] at hgot
      refine ⟨own_note (fun _ => hown) ?_, hpace,
        (fun h => by cases h), fun _ => ⟨hown, hcache, hgot⟩, hlasting⟩
      exact fun hl => hl.note (fun hne => absurd htimes hne) (fun _ => ⟨_, false, hgot⟩) hanswer
  | false =>
      have hurl : url ≠ params.url "/AssetPairs" := by
        intro hurl
        rw [hfill.mpr hurl] at hfilling
        cases hfilling
      have hnil : fetches params [.received i f.clock (.get url query) r] = [] := by
        rw [fetches_received, if_neg hurl]
      refine ⟨own_note (fun hne => absurd hnil hne) ?_, hpace, fun _ => ?_,
        (fun h => by cases h), hlasting⟩
      · exact fun hl => hl.note (fun hne => absurd htimes hne) (fun hne => absurd hnil hne) hanswer
      · obtain ⟨pending, hlog, hown⟩ := h.book
        refine ⟨pending, ?_, hown⟩
        show Fetching f.mem.assetPairsCache pending (fetches params (f.hist ++ [_]))
        rw [fetches_append, hnil, List.append_nil]
        exact hlog

/-- Without a table in the answer everything is as before the request. -/
theorem Answered.resting (h : Answered params world K filling i none f) :
    Resting params world K filling i f where
  pace := h.pace
  book := by
    cases hfilling : filling with
    | true =>
        obtain ⟨hown, hcache, hlog⟩ := h.filling hfilling
        exact ⟨false, by rw [hcache]; exact hlog, fun h => by cases h⟩
    | false => exact h.book hfilling
  filling := h.filling
  known := h.known

/-- A request with its stamp: what comes of it is what the answer says. -/
theorem triple_get {path : String} (hK : Lasting K)
    (hurl : filling = true ↔ params.url path = params.url "/AssetPairs")
    (hpath : filling = true → path = "/AssetPairs") :
    (monitor params u iter world).Triple i (Resting params world K filling i)
      (get params path query)
      (fun r f => match r with
        | .ok result => Answered params world K filling i (cacheable result) f
          ∧ Replied params i path query result f.hist
        | .error _ => Resting params world K filling i f) := by
  refine Monitor.Triple.bind (triple_throttle hK) (fun _ => ?_) (fun e f h => h)
  refine Monitor.Triple.step (S := fun _ => Asked params world K filling i) rfl
    (fun f f' h hf => h.tick hf) ?_ (fun _ => ?_)
  · rintro f b f' hready rfl
    exact hready.emit hK hurl
  -- While the response is awaited the other tasks run, which keep what `Asked` says.
  have hreceive : (monitor params u iter world).Triple i (Asked params world K filling i)
      (Task.await (.receive (.get (params.url path) query)))
      (fun r f => Answered params world K filling i (tableIn params r) f
        ∧ ∃ t, .received i t (.get (params.url path) query) r ∈ f.hist) := by
    refine Monitor.Triple.await (B := Asked params world K filling i) rfl
      (fun f h => ⟨h.pace, h.book⟩) (fun f f' h => h.others hK) ?_
    rintro f r f' - hasked ⟨-, rfl⟩
    obtain ⟨hown, hanswered⟩ := hasked.receive hK hurl r
    exact ⟨hown, hanswered, f.clock, List.mem_append_right _ (List.mem_singleton_self _)⟩
  refine Monitor.Triple.bind hreceive (fun resp => Monitor.Triple.lift ?_)
    (fun e f h => h.1.resting)
  rintro f ⟨hanswered, t, hreceived⟩
  cases hfilling : filling with
  | true =>
      rw [hfilling] at hanswered
      obtain rfl := hpath hfilling
      cases hresult : resultOf params.nestingLimit "/AssetPairs" resp with
      | ok table =>
          have htable : tableIn params (.ok resp) = cacheable table := by
            simp only [tableIn, hresult]
          rw [htable] at hanswered
          exact ⟨hanswered, t, resp, hreceived, hresult⟩
      | error e =>
          have htable : tableIn params (.ok resp) = none := by simp only [tableIn, hresult]
          rw [htable] at hanswered
          exact hanswered.resting
  | false =>
      rw [hfilling] at hanswered
      have hany : ∀ table, Answered params world K false i table f := fun table =>
        ⟨hanswered.pace, hanswered.book, (fun h => by cases h), hanswered.known⟩
      cases hresult : resultOf params.nestingLimit path resp with
      | ok table => exact ⟨hany _, t, resp, hreceived, hresult⟩
      | error e => exact (hany none).resting

/-! ### The table -/

variable (params world)

/-- Under the lock of the table, with no request under way. -/
structure Locked (K : List ClientEvent → Prop) (i : Nat) (f : ClientFrame) : Prop where
  pace : Pace params world f
  owner : f.owner .assetPairs = some i
  log : Fetching f.mem.assetPairsCache false (fetches params f.hist)
  known : K f.hist

variable {params world}

theorem Locked.tick (h : Locked params world K i f) (hf : Ticked f f') :
    Locked params world K i f' := by
  obtain ⟨t, ht, rfl⟩ := hf
  exact ⟨⟨h.pace.paced, fun t' ht' => (h.pace.past t' ht').trans ht⟩, h.owner, h.log, h.known⟩

theorem Locked.resting (h : Locked params world K i f) : Resting params world K false i f where
  pace := h.pace
  book := ⟨false, h.log, fun h => by cases h⟩
  filling := fun h => by cases h
  known := h.known

/-- The lock is given back with nothing under way. -/
theorem Locked.release (h : Locked params world K i f) :
    Resting params world K false i (f.setOwner .assetPairs none) where
  pace := ⟨h.pace.paced, h.pace.past⟩
  book := ⟨false, h.log, fun h => by cases h⟩
  filling := fun h => by cases h
  known := h.known

/-- Who takes the lock finds no request under way. -/
theorem Resting.lock (h : Resting params world K false i f) (hfree : f.owner .assetPairs = none) :
    Locked params world K i (f.setOwner .assetPairs (some i)) where
  pace := ⟨h.pace.paced, h.pace.past⟩
  owner := f.setOwner_self _ _
  log := by
    obtain ⟨pending, hlog, hown⟩ := h.book
    cases pending with
    | true => exact absurd hfree (hown rfl)
    | false => exact hlog
  known := h.known

theorem triple_fillAssetPairs (hK : Lasting K) (cached : Option Json.Value) :
    (monitor params u iter world).Triple i
      (fun f => Locked params world K i f ∧ f.mem.assetPairsCache = cached)
      (fillAssetPairs params cached) (fun _ => Locked params world K i) := by
  cases cached with
  | some table => exact Monitor.Triple.done (fun f h => h.1)
  | none =>
      have hget : (monitor params u iter world).Triple i (Resting params world K true i)
          (get params "/AssetPairs" []) _ :=
        triple_get hK (iff_of_true rfl rfl) (fun _ => rfl)
      refine Monitor.Triple.bind (hget.conseq ?_ (fun _ _ h => h)) (fun table => ?_) ?_
      · rintro f ⟨hlocked, hcache⟩
        refine ⟨hlocked.pace, hlocked.resting.book, fun _ => ⟨hlocked.owner, hcache, ?_⟩,
          hlocked.known⟩
        rw [← hcache]
        exact hlocked.log
      · refine Monitor.Triple.call rfl ?_ ?_
        · rintro f f' ⟨hanswered, hreplied⟩ ⟨t, ht, rfl⟩
          exact ⟨⟨⟨hanswered.pace.paced, fun t' ht' => (hanswered.pace.past t' ht').trans ht⟩,
            hanswered.book, hanswered.filling, hanswered.known⟩, hreplied⟩
        · rintro f b f' ⟨hanswered, -⟩ ⟨-, rfl⟩
          obtain ⟨hown, -, hlog⟩ := hanswered.filling rfl
          refine ⟨own_fields (fun h => absurd rfl h) (fun _ => hown), ?_⟩
          exact ⟨⟨hanswered.pace.paced, hanswered.pace.past⟩, hown, hlog, hanswered.known⟩
      · intro e f hrest
        have hrest : Resting params world K true i f := hrest
        obtain ⟨hown, hcache, hlog⟩ := hrest.filling rfl
        exact ⟨hrest.pace, hown, by rw [hcache]; exact hlog, hrest.known⟩

/-- A call that gets the table gets the one that was fetched, or `None`. -/
theorem triple_getAssetPairs (hK : Lasting K) :
    (monitor params u iter world).Triple i (Resting params world K false i)
      (getAssetPairs params)
      (fun r f => Resting params world K false i f
        ∧ ∀ table, r = .ok table → table = .null ∨ Known params table f.hist) := by
  have hbody : (monitor params u iter world).Triple i (Locked params world K i)
      (cachedAssetPairs params)
      (fun r f => Locked params world K i f
        ∧ ∀ table, r = .ok table → table = .null ∨ Known params table f.hist) := by
    refine Monitor.Triple.step
      (S := fun cached f => Locked params world K i f ∧ f.mem.assetPairsCache = cached) rfl
      (fun f f' h hf => h.tick hf) ?_ (fun cached => ?_)
    · rintro f b f' hlocked ⟨rfl, rfl⟩
      exact ⟨own_self f, hlocked, rfl⟩
    refine Monitor.Triple.bind (triple_fillAssetPairs hK cached) (fun _ => ?_)
      (fun e f h => ⟨h, fun table htable => by cases htable⟩)
    refine Monitor.Triple.call rfl (fun f f' h hf => h.tick hf) ?_
    rintro f b f' hlocked ⟨rfl, rfl⟩
    refine ⟨own_self f, hlocked, ?_⟩
    intro table htable
    obtain rfl := Except.ok.inj htable
    have hlog := hlocked.log
    show f.mem.assetPairsCache.getD .null = .null
      ∨ Known params (f.mem.assetPairsCache.getD .null) f.hist
    cases hcache : f.mem.assetPairsCache with
    | none => exact Or.inl rfl
    | some table =>
        rw [hcache] at hlog
        exact Or.inr hlog.mem
  refine Monitor.Triple.withLock (fun f h => ⟨h.pace, h.book⟩) (fun f f' h => h.others hK) ?_ ?_
    hbody ?_ ?_
  · intro f _ hrest hfree
    exact ⟨own_lock (Or.inl hfree), hrest.lock hfree⟩
  · intro f e _ hrest
    exact ⟨own_self f, hrest, fun table htable => by cases htable⟩
  · rintro r f f' ⟨hlocked, hknown⟩ hf
    refine ⟨hlocked.tick hf, ?_⟩
    obtain ⟨t, -, rfl⟩ := hf
    exact hknown
  · rintro r f ⟨hlocked, hknown⟩
    exact ⟨own_lock (Or.inr hlocked.owner), hlocked.release, hknown⟩

/-! ### The calls -/

theorem lasting_true : Lasting (fun _ => True) := fun _ _ _ => trivial

theorem lasting_known (table : Json.Value) : Lasting (Known params table) :=
  fun _ h' h => h.mono h'

/-- What a call is told about its outcome is justified by the past. -/
theorem triple_answering {α : Type} {answer : Except Failure α → Answer} {method : Coroutine α}
    (h : (monitor params u iter world).Triple i (Resting params world (fun _ => True) false i)
      method (fun r f => Resting params world (fun _ => True) false i f
        ∧ Justified params u iter i f.hist (answer r))) :
    (monitor params u iter world).Triple i (monitor params u iter world).J
      (answering answer method) (fun _ => (monitor params u iter world).J) := by
  refine Monitor.Triple.bind (h.attempt.conseq ?_ (fun _ _ h => h)) (fun r => ?_) ?_
  · exact fun f hJ => ⟨hJ.1, hJ.2, (fun h => by cases h), trivial⟩
  · refine Monitor.Triple.call rfl ?_ ?_
    · rintro f f' ⟨r', hr, hrest, hjust⟩ hf
      refine ⟨r', hr, hrest.tick hf, ?_⟩
      obtain ⟨t, -, rfl⟩ := hf
      exact hjust
    · rintro f b f' ⟨r', hr, hrest, hjust⟩ rfl
      obtain rfl := Except.ok.inj hr
      have htimes : requestTimes [.sent i f.clock (.answer (answer r))] = [] := rfl
      have hnil : fetches params [.sent i f.clock (.answer (answer r))] = [] := rfl
      refine ⟨own_note (fun hne => absurd hnil hne) ?_, ?_, ?_⟩
      · refine fun hl => hl.note (fun hne => absurd htimes hne) (fun hne => absurd hnil hne) ?_
        intro j t a he
        obtain ⟨rfl, -, ha⟩ := Event.sent.inj he
        obtain rfl := Out.answer.inj ha
        exact hjust
      · refine ⟨?_, ?_⟩
        · show Paced _ (requestTimes (f.hist ++ [_])) _
          rw [requestTimes_append, htimes, List.append_nil]
          exact hrest.pace.paced
        · show ∀ t ∈ requestTimes (f.hist ++ [_]), t ≤ f.clock
          rw [requestTimes_append, htimes, List.append_nil]
          exact hrest.pace.past
      · obtain ⟨pending, hlog, hown⟩ := hrest.book
        refine ⟨pending, ?_, hown⟩
        show Fetching f.mem.assetPairsCache pending (fetches params (f.hist ++ [_]))
        rw [fetches_append, hnil, List.append_nil]
        exact hlog
  · rintro e f ⟨r', hr, -⟩
    cases hr

/-- A request to the ticker leaves the table alone. -/
theorem triple_ticker (hK : Lasting K) :
    (monitor params u iter world).Triple i (Resting params world K false i)
      (get params "/Ticker" query)
      (fun r f => Resting params world K false i f
        ∧ ∀ result, r = .ok result → Replied params i "/Ticker" query result f.hist) := by
  have hget : (monitor params u iter world).Triple i (Resting params world K false i)
      (get params "/Ticker" query) _ :=
    triple_get hK (iff_of_false Bool.false_ne_true url_ne) (fun h => by cases h)
  refine hget.conseq (fun _ h => h) ?_
  intro r f hpost
  cases r with
  | ok result =>
      obtain ⟨hanswered, hreplied⟩ : Answered params world K false i (cacheable result) f
        ∧ Replied params i "/Ticker" query result f.hist := hpost
      refine ⟨⟨hanswered.pace, hanswered.book rfl, (fun h => by cases h), hanswered.known⟩, ?_⟩
      rintro result' hresult
      rw [← Except.ok.inj hresult]
      exact hreplied
  | error e => exact ⟨hpost, fun result hresult => by cases hresult⟩

theorem triple_resolvePair (symbol : String) :
    (monitor params u iter world).Triple i (Resting params world (fun _ => True) false i)
      (resolvePair params u iter symbol)
      (fun r f => Resting params world (fun _ => True) false i f
        ∧ Justified params u iter i f.hist (.resolved symbol r)) := by
  refine Monitor.Triple.bind (triple_getAssetPairs lasting_true)
    (fun table => Monitor.Triple.lift ?_) (fun e f h => ⟨h.1, trivial⟩)
  rintro f ⟨hrest, htable⟩
  refine ⟨hrest, ?_⟩
  cases hresolve : resolveIn u iter table symbol with
  | error e => exact trivial
  | ok resolved =>
      rcases htable table rfl with rfl | hknown
      · cases hresolve
      · exact ⟨table, hknown, hresolve⟩

theorem triple_getQuotes (names : List String) :
    (monitor params u iter world).Triple i (Resting params world (fun _ => True) false i)
      (getQuotes params names)
      (fun r f => Resting params world (fun _ => True) false i f
        ∧ Justified params u iter i f.hist (.quoted names r)) := by
  refine Monitor.Triple.bind (triple_ticker lasting_true) (fun result => Monitor.Triple.lift ?_)
    (fun e f h => ⟨h.1, trivial⟩)
  rintro f ⟨hrest, hreplied⟩
  refine ⟨hrest, ?_⟩
  cases hquotes : quotesOf result with
  | error e => exact trivial
  | ok quotes => exact ⟨result, hreplied result rfl, hquotes⟩

theorem triple_getUsdMarketSnapshot :
    (monitor params u iter world).Triple i (Resting params world (fun _ => True) false i)
      (getUsdMarketSnapshot params)
      (fun r f => Resting params world (fun _ => True) false i f
        ∧ Justified params u iter i f.hist (.surveyed r)) := by
  refine Monitor.Triple.bind (triple_getAssetPairs lasting_true) (fun table => ?_)
    (fun e f h => ⟨h.1, trivial⟩)
  cases hpairs : assetPairsOf table with
  | error e => exact Monitor.Triple.fail (fun f h => ⟨h.1, trivial⟩)
  | ok assetPairs =>
      -- What the table was is known while the ticker is fetched.
      have hticker : (monitor params u iter world).Triple i
          (Resting params world (Known params table) false i) (get params "/Ticker" []) _ :=
        triple_ticker (lasting_known table)
      show (monitor params u iter world).Triple i _
        (get params "/Ticker" [] >>= fun result => Task.lift (snapshotOf assetPairs result)) _
      refine Monitor.Triple.bind (hticker.conseq ?_ (fun _ _ h => h))
        (fun result => Monitor.Triple.lift ?_) (fun e f h => ⟨?_, trivial⟩)
      · rintro f ⟨hrest, htable⟩
        refine ⟨hrest.pace, hrest.book, hrest.filling, ?_⟩
        rcases htable table rfl with rfl | hknown
        · cases hpairs
        · exact hknown
      · rintro f ⟨hrest, hreplied⟩
        refine ⟨⟨hrest.pace, hrest.book, hrest.filling, trivial⟩, ?_⟩
        cases hsnapshot : snapshotOf assetPairs result with
        | error e => exact trivial
        | ok snapshot =>
            exact ⟨table, assetPairs, result, hrest.known, hpairs, hreplied result rfl, hsnapshot⟩
      · exact ⟨h.1.pace, h.1.book, h.1.filling, trivial⟩

theorem verified_monitor : (monitor params u iter world).Verified := by
  intro i p hp
  cases hp with
  | resolvePair symbol => exact triple_answering (triple_resolvePair symbol)
  | getQuotes names => exact triple_answering (triple_getQuotes names)
  | getUsdMarketSnapshot => exact triple_answering triple_getUsdMarketSnapshot

/-! ### Every run -/

theorem initially_valid (now : ℚ) :
    (monitor params u iter world).Valid (constructed now) := by
  refine Monitor.Valid.initial ?_
  exact ⟨⟨.start _, fun t ht => absurd ht List.not_mem_nil⟩, false, .start, fun h => by cases h⟩

theorem lawful_of_reaches {now : ℚ} {c : Config Fields Lock ℚ Out Response Failure}
    (h : Reaches (client params u iter world) (constructed now) c) :
    Lawful params u iter world c.frame.hist := by
  refine Monitor.always_of_reaches (I := fun f => Lawful params u iter world f.hist) ?_ ?_
    verified_monitor (initially_valid now) ?_ h
  · rintro f f' hlawful ⟨t, -, rfl⟩
    exact hlawful
  · exact fun hlawful hown => hown.2 hlawful
  · exact ⟨⟨0, .start 0⟩, ⟨none, false, .start⟩, fun j t a hmem => absurd hmem List.not_mem_nil⟩

end Monitor

/-! ## Locks -/

/-- The table's lock is taken before the throttle's. -/
def Lock.rank : Lock → Nat
  | .assetPairs => 0
  | .throttle => 1

section Balance

variable {held : List Lock}

theorem balanced_sleepFor (wait : ℚ) : (sleepFor wait).Balanced Lock.rank held := by
  rw [sleepFor]
  by_cases hpos : 0 < wait
  · rw [if_pos hpos]
    exact Task.Balanced.bind (Task.Balanced.call rfl) (fun _ => Task.Balanced.await rfl)
  · rw [if_neg hpos]
    exact Task.Balanced.done

theorem balanced_throttle (hheld : ∀ l ∈ held, l = .assetPairs) :
    (throttle params).Balanced Lock.rank held := by
  refine Task.Balanced.withLock ?_ ?_
  · intro l hl
    rw [hheld l hl]
    exact Nat.zero_lt_one
  · exact Task.Balanced.bind (Task.Balanced.call rfl) (fun _ =>
      Task.Balanced.bind (Task.Balanced.call rfl) (fun _ =>
        Task.Balanced.bind (balanced_sleepFor _) (fun _ =>
          Task.Balanced.bind (Task.Balanced.call rfl) (fun _ => Task.Balanced.call rfl))))

theorem balanced_get (path : String) (query : List (String × String))
    (hheld : ∀ l ∈ held, l = .assetPairs) : (get params path query).Balanced Lock.rank held :=
  Task.Balanced.bind (balanced_throttle hheld) (fun _ =>
    Task.Balanced.bind (Task.Balanced.call rfl) (fun _ =>
      Task.Balanced.bind (Task.Balanced.await rfl) (fun _ => Task.Balanced.lift)))

theorem balanced_getAssetPairs : (getAssetPairs params).Balanced Lock.rank [] := by
  refine Task.Balanced.withLock (fun l hl => absurd hl List.not_mem_nil) ?_
  refine Task.Balanced.bind (Task.Balanced.call rfl) (fun cached => ?_)
  refine Task.Balanced.bind ?_ (fun _ => Task.Balanced.call rfl)
  cases cached with
  | some table => exact Task.Balanced.done
  | none =>
      exact Task.Balanced.bind (balanced_get _ _ (fun l hl => List.mem_singleton.mp hl))
        (fun _ => Task.Balanced.call rfl)

theorem balanced_answering {answer : Except Failure α → Answer} {method : Coroutine α}
    (h : method.Balanced Lock.rank []) : (answering answer method).Balanced Lock.rank [] :=
  Task.Balanced.bind h.attempt (fun _ => Task.Balanced.call rfl)

/-- Every call takes the locks in order and gives them back. -/
theorem IsCall.balanced {p : Coroutine Unit} (h : IsCall params u iter p) :
    p.Balanced Lock.rank [] := by
  have hnone : ∀ l ∈ ([] : List Lock), l = .assetPairs := fun l hl => absurd hl List.not_mem_nil
  cases h with
  | resolvePair symbol =>
      exact balanced_answering
        (Task.Balanced.bind balanced_getAssetPairs (fun _ => Task.Balanced.lift))
  | getQuotes names =>
      exact balanced_answering
        (Task.Balanced.bind (balanced_get _ _ hnone) (fun _ => Task.Balanced.lift))
  | getUsdMarketSnapshot =>
      exact balanced_answering (Task.Balanced.bind balanced_getAssetPairs (fun _ =>
        Task.Balanced.bind Task.Balanced.lift (fun _ =>
          Task.Balanced.bind (balanced_get _ _ hnone) (fun _ => Task.Balanced.lift))))

end Balance

/-- Calls that are made one after another, each with its own answers. -/
def serve : List (Coroutine Unit × (Out → Except Failure Response)) → Nat → ClientFrame →
    ClientFrame
  | [], _, f => f
  | (call, reply) :: rest, i, f => serve rest (i + 1) (call.solo reply i f)

theorem reaches_serve {world : World}
    {calls : List (Coroutine Unit × (Out → Except Failure Response))}
    (hcalls : ∀ e ∈ calls, IsCall params u iter e.1 ∧ ∀ q, world.kraken q (e.2 q))
    {c : Config Fields Lock ℚ Out Response Failure} (hfree : ∀ l, c.frame.owner l = none)
    (hrun : c.running = none) :
    ∃ tasks, Reaches (client params u iter world) c
      ⟨serve calls c.tasks.length c.frame, none, tasks⟩ := by
  induction calls generalizing c with
  | nil => exact ⟨c.tasks, by rw [← hrun]; exact .refl⟩
  | cons e rest ih =>
      obtain ⟨hcall, hreply⟩ := hcalls e List.mem_cons_self
      obtain ⟨p', hfree', hreach⟩ :=
        @reaches_solo _ _ _ _ _ _ _ _ _ (client params u iter world) Lock.rank e.2 c hreply
          (fun t => le_add_of_nonneg_right world.nonneg) hfree hrun e.1 hcall hcall.balanced
      obtain ⟨tasks, hreach'⟩ := @ih (fun e' he' => hcalls e' (List.mem_cons_of_mem e he'))
        ⟨e.1.solo e.2 c.tasks.length c.frame, none, c.tasks ++ [p']⟩ hfree' rfl
      rw [List.length_append] at hreach'
      exact ⟨tasks, hreach.trans hreach'⟩

/-- Timers fire on time, and Kraken may answer anything. -/
def anyWorld : World := ⟨0, le_rfl, fun _ _ => True⟩

/-- A request for a quote that gets no answer. -/
def lostQuote : Coroutine Unit × (Out → Except Failure Response) :=
  (answering (.quoted ["XXBTZUSD"]) (getQuotes {} ["XXBTZUSD"]), fun _ => .error .transportError)

def listing : Response where
  status := 200
  text := "\x7b\"error\":[],\"result\":\x7b\"XXBTZUSD\":\x7b\"wsname\":\"XBT/USD\"\x7d\x7d\x7d"

/-- A symbol is resolved twice; the first request for the table gets no answer. -/
def resolutions : List (Coroutine Unit × (Out → Except Failure Response)) :=
  let call := answering (.resolved "XBTUSD") (resolvePair {} ascii asGiven "XBTUSD")
  [(call, fun _ => .error .transportError), (call, fun _ => .ok listing)]

theorem reaches_lostQuotes : ∃ tasks,
    Reaches (client {} ascii asGiven anyWorld) (constructed 1)
      ⟨serve [lostQuote, lostQuote, lostQuote] 0 (constructed 1).frame, none, tasks⟩ := by
  refine @reaches_serve {} ascii asGiven anyWorld _ ?_ (constructed 1) (fun _ => rfl) rfl
  intro e he
  rw [List.eq_of_mem_replicate (n := 3) he]
  exact ⟨.getQuotes ["XXBTZUSD"], fun _ => trivial⟩

theorem reaches_resolutions : ∃ tasks,
    Reaches (client {} ascii asGiven anyWorld) (constructed 1)
      ⟨serve resolutions 0 (constructed 1).frame, none, tasks⟩ := by
  refine @reaches_serve {} ascii asGiven anyWorld _ ?_ (constructed 1) (fun _ => rfl) rfl
  intro e he
  rcases List.mem_cons.mp he with rfl | he
  · exact ⟨.resolvePair "XBTUSD", fun _ => trivial⟩
  · rw [List.mem_singleton.mp he]
    exact ⟨.resolvePair "XBTUSD", fun _ => trivial⟩

/-! ## Results -/

section Results

variable {now : ℚ} {c : Config Fields Lock ℚ Out Response Failure} {world : World}

/-- Any `k + 2` requests in a row span `k` intervals, up to what the timers are early,
    whoever makes them and however they end. -/
theorem requests_spaced (h : Reaches (client params u iter world) (constructed now) c)
    {j k : Nat} {t t' : ℚ} (hj : (requestTimes c.frame.hist)[j]? = some t)
    (hk : (requestTimes c.frame.hist)[j + k + 1]? = some t') :
    t + k * (params.minInterval - world.resolution) ≤ t' := by
  obtain ⟨last, hpaced⟩ := (lawful_of_reaches h).paced
  exact hpaced.spaced hj hk

/-- Three requests that leave one second apart. -/
theorem requests_spaced_three :
    requestTimes (serve [lostQuote, lostQuote, lostQuote] 0 (constructed 1).frame).hist
        = [1, 2, 3]
      ∧ (1 : ℚ) + (1 : Nat) * (({} : Params).minInterval - anyWorld.resolution) ≤ 3 := by
  have htimes : requestTimes
      (serve [lostQuote, lostQuote, lostQuote] 0 (constructed 1).frame).hist = [1, 2, 3] := by
    decide +kernel
  obtain ⟨tasks, hreach⟩ := reaches_lostQuotes
  refine ⟨htimes, ?_⟩
  refine @requests_spaced {} ascii asGiven 1 _ anyWorld hreach 0 1 1 3 ?_ ?_
  · exact (congrArg (fun l : List ℚ => l[0]?) htimes).trans rfl
  · exact (congrArg (fun l : List ℚ => l[2]?) htimes).trans rfl

/-! ### One table -/

def Fetch.isAsked : Fetch → Bool
  | .asked => true
  | .got _ => false

/-- The log of the fetches up to a request, or up to the end. -/
theorem Fetching.split (h : Fetching cache pending log) {before after : List Fetch}
    (hlog : log = before ++ after) : ∃ cache pending, Fetching cache pending before := by
  induction h generalizing after with
  | start =>
      obtain ⟨rfl, -⟩ := List.append_eq_nil_iff.mp hlog.symm
      exact ⟨none, false, .start⟩
  | @asked log h ih =>
      rcases List.eq_nil_or_concat after with rfl | ⟨after', e, rfl⟩
      · rw [List.append_nil] at hlog
        exact ⟨none, true, hlog ▸ h.asked⟩
      · rw [List.concat_eq_append, ← List.append_assoc] at hlog
        exact ih (List.append_inj_left' hlog rfl)
  | @got log table h ih =>
      rcases List.eq_nil_or_concat after with rfl | ⟨after', e, rfl⟩
      · rw [List.append_nil] at hlog
        exact ⟨table, false, hlog ▸ h.got table⟩
      · rw [List.concat_eq_append, ← List.append_assoc] at hlog
        exact ih (List.append_inj_left' hlog rfl)

/-- Requests and answers come in turn. -/
theorem Fetching.balance (h : Fetching cache pending log) :
    log.countP Fetch.isAsked = log.countP (fun e => !e.isAsked) + pending.toNat := by
  induction h with
  | start => rfl
  | asked h ih => simpa [List.countP_append, Fetch.isAsked] using ih
  | got table h ih =>
      rw [List.countP_append, List.countP_append, ih]
      simp [Fetch.isAsked]

/-- Before a request for the table every earlier one has been answered, and none with a
    table: callers that come while one is under way wait for it, and once there is a
    table nobody asks again. -/
theorem fetched_once (h : Reaches (client params u iter world) (constructed now) c)
    {before after : List Fetch} (hlog : fetches params c.frame.hist = before ++ .asked :: after) :
    before.countP Fetch.isAsked = before.countP (fun e => !e.isAsked)
      ∧ ∀ table, .got (some table) ∉ before := by
  obtain ⟨cache, pending, hall⟩ := (lawful_of_reaches h).fetching
  have hupto : ∃ cache pending, Fetching cache pending (before ++ [.asked]) :=
    hall.split (hlog.trans (List.append_cons before _ after))
  obtain ⟨cache, pending, hasked⟩ := hupto
  generalize hlist : before ++ [Fetch.asked] = log at hasked
  cases hasked with
  | start => exact absurd hlist (List.concat_ne_nil _ _)
  | got table h => cases (List.append_inj' hlist rfl).2
  | asked h =>
      rw [List.append_inj_left' hlist rfl]
      refine ⟨h.balance, ?_⟩
      intro table hmem
      cases h.unique hmem

/-- The second request for the table, after the first got no answer. -/
theorem fetched_once_retried : ∃ before after,
    fetches {} (serve resolutions 0 (constructed 1).frame).hist = before ++ .asked :: after
      ∧ before.length = 2 ∧ before.countP Fetch.isAsked = before.countP (fun e => !e.isAsked)
      ∧ ∀ table, .got (some table) ∉ before := by
  have hshape : (fetches {} (serve resolutions 0 (constructed 1).frame).hist).map Fetch.isAsked
      = [true, false] ++ [true, false] := by decide +kernel
  obtain ⟨before, rest, hlog, hbefore, hrest⟩ := List.map_eq_append_iff.mp hshape
  obtain ⟨e, after, rfl, he, -⟩ := List.map_eq_cons_iff.mp hrest
  have hasked : e = .asked := by
    cases e with
    | asked => rfl
    | got table => cases he
  rw [hasked] at hlog
  obtain ⟨tasks, hreach⟩ := reaches_resolutions
  refine ⟨before, after, hlog, ?_, ?_⟩
  · simpa using congrArg List.length hbefore
  · exact @fetched_once {} ascii asGiven 1 _ anyWorld hreach before after hlog

/-- The outcome of call `i` is computed from this table, and from what Kraken answered the
    call itself where it has asked for the ticker. -/
def ComputedFrom (params : Params) (u : Unicode) (iter : SetOrder) (table : Json.Value) (i : Nat)
    (hist : List ClientEvent) : Answer → Prop
  | .resolved symbol (.ok resolved) => resolveIn u iter table symbol = .ok resolved
  | .quoted names (.ok quotes) =>
      ∃ result, Replied params i "/Ticker" [("pair", ",".intercalate names)] result hist
        ∧ quotesOf result = .ok quotes
  | .surveyed (.ok snapshot) => ∃ assetPairs result, assetPairsOf table = .ok assetPairs
      ∧ Replied params i "/Ticker" [] result hist ∧ snapshotOf assetPairs result = .ok snapshot
  | _ => True

/-- Everything that succeeds in the lifetime of a client is computed from one and the same
    table: a symbol that is resolved twice is resolved to the same pair. -/
theorem one_table (h : Reaches (client params u iter world) (constructed now) c) :
    ∃ table, ∀ j t a, .sent j t (.answer a) ∈ c.frame.hist →
      ComputedFrom params u iter table j c.frame.hist a := by
  have hlawful := lawful_of_reaches h
  obtain ⟨cache, pending, hlog⟩ := hlawful.fetching
  refine ⟨cache.getD .null, ?_⟩
  intro j t a hmem
  have hjust := hlawful.justified j t a hmem
  have hfrom : ∀ table, Known params table c.frame.hist → table = cache.getD .null := by
    intro table hknown
    rw [hlog.unique hknown]
    rfl
  cases a with
  | resolved symbol outcome =>
      cases outcome with
      | error e => exact trivial
      | ok resolved =>
          obtain ⟨table, hknown, hresolve⟩ := hjust
          rw [← hfrom table hknown]
          exact hresolve
  | quoted names outcome =>
      cases outcome with
      | error e => exact trivial
      | ok quotes => exact hjust
  | surveyed outcome =>
      cases outcome with
      | error e => exact trivial
      | ok snapshot =>
          obtain ⟨table, assetPairs, result, hknown, hpairs, hreplied, hsnapshot⟩ := hjust
          rw [← hfrom table hknown]
          exact ⟨assetPairs, result, hpairs, hreplied, hsnapshot⟩

/-- The pair of the last event, if it is the answer to a symbol. -/
def lastResolved (hist : List ClientEvent) : Option ResolvedPair :=
  match hist.getLast? with
  | some (.sent _ _ (.answer (.resolved _ (.ok resolved)))) => some resolved
  | _ => none

/-- The symbol is resolved when the second request has brought the table. -/
theorem one_table_retried :
    lastResolved (serve resolutions 0 (constructed 1).frame).hist
        = some ⟨"XXBTZUSD", "XBTUSD", "XBT", "USD"⟩
      ∧ ∃ table, ∀ j t a, .sent j t (.answer a) ∈ (serve resolutions 0 (constructed 1).frame).hist →
          ComputedFrom {} ascii asGiven table j
            (serve resolutions 0 (constructed 1).frame).hist a := by
  obtain ⟨tasks, hreach⟩ := reaches_resolutions
  exact ⟨by decide +kernel, one_table hreach⟩

/-! ### No call is stuck -/

theorem responsive_client (hkraken : ∀ q, ∃ r, world.kraken q r) :
    Responsive (client params u iter world).calm where
  timers := by
    intro t deadline
    refine ⟨max t deadline, le_max_left _ _, ?_⟩
    exact (le_max_right t deadline).trans (le_add_of_nonneg_right world.nonneg)
  answers := hkraken

/-- However the calls have been interleaved and cancelled so far: if no more are made and
    none is cancelled, all of them come to an end, whoever moves next and whatever Kraken
    answers, and both locks are free then. -/
theorem calls_complete (hkraken : ∀ q, ∃ r, world.kraken q r)
    (h : Reaches (client params u iter world) (constructed now) c) :
    Inevitably (client params u iter world).calm Config.Over c := by
  have hbound : ∀ l, Lock.rank l < 2 := by
    intro l
    cases l <;> decide
  obtain ⟨held, htidy⟩ :=
    Tidy.of_reaches (@Tidy.initial _ _ _ _ _ _ Lock.rank ⟨now, {}, fun _ => none, []⟩
      (fun _ => rfl)) (fun p hp => IsCall.balanced hp) h
  have hknown := known_of_reaches (fun i hi => by cases hi) h
  exact htidy.inevitably_over (responsive_client hkraken) (fun _ hp => hp) hbound hknown

/-- One call has the throttle's lock, and another has just been made. -/
theorem calls_complete_locked : ∃ c,
    c.frame.owner .throttle = some 0 ∧ c.tasks.length = 2
      ∧ Inevitably (client {} ascii asGiven anyWorld).calm Config.Over c := by
  have hcall : IsCall {} ascii asGiven lostQuote.1 := .getQuotes ["XXBTZUSD"]
  have hspawn : Step (client {} ascii asGiven anyWorld) (constructed 1)
      ⟨(constructed 1).frame, none, [lostQuote.1]⟩ := .spawn (constructed 1) lostQuote.1 hcall
  have hfree : Effect (client {} ascii asGiven anyWorld) 0 (constructed 1).frame _
      (.acquire Lock.throttle) (.ok ()) ((constructed 1).frame.setOwner .throttle (some 0)) :=
    ⟨rfl, rfl⟩
  have hlock : ∃ rest, Step (client {} ascii asGiven anyWorld)
      ⟨(constructed 1).frame, none, [lostQuote.1]⟩
      ⟨(constructed 1).frame.setOwner .throttle (some 0), some 0, [rest]⟩ :=
    ⟨_, .exec _ 0 _ _ _ _ rfl (Or.inl rfl) hfree⟩
  obtain ⟨rest, hlock⟩ := hlock
  have hreach : Reaches (client {} ascii asGiven anyWorld) (constructed 1)
      ⟨(constructed 1).frame.setOwner .throttle (some 0), some 0, [rest, lostQuote.1]⟩ :=
    ((Relation.ReflTransGen.single hspawn).tail hlock).tail
      (.spawn ⟨(constructed 1).frame.setOwner .throttle (some 0), some 0, [rest]⟩ _ hcall)
  exact ⟨_, rfl, rfl, calls_complete (fun _ => ⟨.error .transportError, trivial⟩) hreach⟩

end Results

end Dropwatch.Provider
