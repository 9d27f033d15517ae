import ExecutionSystem.InsertionDict
import ExecutionSystem.Machine
import ExecutionSystem.Models

/-!
# Streaming subscriptions

A quote is read from a market-data subscription that stays open.
`get_quotes` opens the missing ones and stamps all it reads with the clock;
when the new ones have warmed up it cancels those that were idle for too
long, and beyond these the least recently used ones, down to a cap. Pinned
symbols stay. What is open and when it was last read are two dictionaries
that are written side by side.

Between the stamp and the eviction of one call other calls do the same, the
socket may be lost, and time passes: an eviction goes by the clock that its
own call has stamped with, and by dictionaries that others have changed. A
session runs these blocks in any order, and in all of its states the two
dictionaries have the same keys (`StreamingSession.inSync`), and what is open has
the clock of the last call that has read it (`StreamingSession.lastRead`).
-/

/-- The limits of `IBKRBrokerClient.__init__`. -/
structure StreamingLimits where
  pinnedSymbols : List String := ["XSP"]
  maxStreamingSubscriptions : ℕ := 80
  streamingIdleEvictSeconds : Time := 600

/-- **The subscriptions**: the live tickers, and when each was last read. -/
structure Subscriptions (Ticker : Type) where
  streamingTickers : InsertionDict String Ticker := .empty
  streamingLastAccess : InsertionDict String Time := .empty

namespace Subscriptions

variable {Ticker : Type}

/-- One symbol in the loop of `get_quotes`, with what `reqMktData` answers for
it: `none` where a request is made, and raises. -/
def access (s : Subscriptions Ticker) (nowMono : Time) (qualified : String × Option Ticker) :
    Option (Subscriptions Ticker) :=
  match s.streamingTickers.get? qualified.1 with
  | some _ =>
    some { s with streamingLastAccess := s.streamingLastAccess.set qualified.1 nowMono }
  | none => qualified.2.map fun ticker =>
    { streamingTickers := s.streamingTickers.set qualified.1 ticker
      streamingLastAccess := s.streamingLastAccess.set qualified.1 nowMono }

/-- The loop of `get_quotes` over the qualified symbols, and whether it has
come to its end: a request that raises ends the call. -/
def subscribe (nowMono : Time) :
    List (String × Option Ticker) → Subscriptions Ticker → Subscriptions Ticker × Bool
  | [], s => (s, true)
  | q :: rest, s =>
    match s.access nowMono q with
    | some s' => subscribe nowMono rest s'
    | none => (s, false)

/-- **The symbols that the loop reads**, with some that are live: all that it names, up
to a request that raises. -/
def served : List String → List (String × Option Ticker) → List String
  | _, [] => []
  | live, q :: rest =>
    if q.1 ∈ live ∨ q.2.isSome then q.1 :: served (q.1 :: live) rest else []

variable (limits : StreamingLimits)

/-- `evictable`: the last accesses of live symbols that are not pinned. -/
def evictable (s : Subscriptions Ticker) : List (String × Time) :=
  s.streamingLastAccess.entries.filter fun e =>
    e.1 ∉ limits.pinnedSymbols ∧ e.1 ∈ s.streamingTickers.keys

/-- The symbols of the idle timeout. -/
def idleSymbols (nowMono : Time) (s : Subscriptions Ticker) : List String :=
  ((s.evictable limits).filter fun e =>
    limits.streamingIdleEvictSeconds < nowMono - e.2).map Prod.fst

/-- `live_count`, once the idle symbols are out. -/
def liveCount (nowMono : Time) (s : Subscriptions Ticker) : ℤ :=
  s.streamingTickers.size - (s.idleSymbols limits nowMono).length

/-- `survivors`: what is evictable and not idle, the least recently used
first. -/
def survivors (nowMono : Time) (s : Subscriptions Ticker) : List (String × Time) :=
  ((s.evictable limits).filter fun e => e.1 ∉ s.idleSymbols limits nowMono).mergeSort
    fun a b => a.2 ≤ b.2

/-- The symbols of the hard cap. -/
def overCap (nowMono : Time) (s : Subscriptions Ticker) : List String :=
  let cap : ℤ := limits.maxStreamingSubscriptions
  if cap < s.liveCount limits nowMono then
    ((s.survivors limits nowMono).take (s.liveCount limits nowMono - cap).toNat).map Prod.fst
  else []

/-- `to_evict`. -/
def toEvict (nowMono : Time) (s : Subscriptions Ticker) : List String :=
  s.idleSymbols limits nowMono ++ s.overCap limits nowMono

/-- **`_evict_idle_subscriptions`**: the subscriptions that are left, and the
tickers whose market data are cancelled. -/
def evictIdleSubscriptions (nowMono : Time) (s : Subscriptions Ticker) :
    Subscriptions Ticker × List Ticker :=
  ({ streamingTickers := s.streamingTickers.popAll (s.toEvict limits nowMono)
     streamingLastAccess := s.streamingLastAccess.popAll (s.toEvict limits nowMono) },
    (s.toEvict limits nowMono).filterMap s.streamingTickers.get?)

/-! ## The two dictionaries -/

/-- **What is live is what has a last access**, and both came in one order. -/
def InSync (s : Subscriptions Ticker) : Prop :=
  s.streamingTickers.keys = s.streamingLastAccess.keys

theorem inSync_empty : ({} : Subscriptions Ticker).InSync := rfl

/-- A symbol that is live has a last access to be overwritten, and one that
is not gets both entries, or none. -/
theorem InSync.access {nowMono : Time} {q : String × Option Ticker}
    {s s' : Subscriptions Ticker} (hs : s.InSync) (h : s.access nowMono q = some s') :
    s'.InSync := by
  unfold Subscriptions.access at h
  cases hsym : s.streamingTickers.get? q.1 with
  | some ticker =>
    have hlive : q.1 ∈ s.streamingLastAccess.keys := by
      rw [← hs, ← InsertionDict.isSome_get?, hsym]
      rfl
    simp only [hsym, Option.some.injEq] at h
    subst h
    show s.streamingTickers.keys = (s.streamingLastAccess.set q.1 nowMono).keys
    rw [InsertionDict.keys_set, if_pos hlive, hs]
  | none =>
    have hnew := InsertionDict.get?_eq_none_iff.mp hsym
    simp only [hsym, Option.map_eq_some_iff] at h
    obtain ⟨ticker, -, rfl⟩ := h
    show (s.streamingTickers.set q.1 ticker).keys = (s.streamingLastAccess.set q.1 nowMono).keys
    rw [InsertionDict.keys_set, InsertionDict.keys_set, ← hs, if_neg hnew]

/-- The loop of `get_quotes` keeps the dictionaries in step, whether or not
it comes to its end. -/
theorem InSync.subscribe {nowMono : Time} {qualified : List (String × Option Ticker)}
    {s : Subscriptions Ticker} (hs : s.InSync) :
    (Subscriptions.subscribe nowMono qualified s).1.InSync := by
  induction qualified generalizing s with
  | nil => exact hs
  | cons q rest ih =>
    unfold Subscriptions.subscribe
    cases haccess : s.access nowMono q with
    | some s' => exact ih (hs.access haccess)
    | none => exact hs

/-- Only what is live matters for what is read. -/
theorem served_congr {live live' : List String} (h : ∀ sym, sym ∈ live ↔ sym ∈ live')
    (qualified : List (String × Option Ticker)) :
    served live qualified = served live' qualified := by
  induction qualified generalizing live live' with
  | nil => rfl
  | cons q rest ih =>
    have hrest : served (q.1 :: live) rest = served (q.1 :: live') rest :=
      ih fun sym => by rw [List.mem_cons, List.mem_cons, h sym]
    unfold served
    rw [hrest]
    exact if_congr (or_congr_left (h q.1)) rfl rfl

/-- **What a symbol that is read is left with**: its key is live, and it has the
clock of the call. -/
theorem access_cases {nowMono : Time} {q : String × Option Ticker} {s s' : Subscriptions Ticker}
    (h : s.access nowMono q = some s') :
    (q.1 ∈ s.streamingTickers.keys ∨ q.2.isSome = true)
      ∧ (∀ sym, sym ∈ s'.streamingTickers.keys ↔ sym = q.1 ∨ sym ∈ s.streamingTickers.keys)
      ∧ ∀ sym, s'.streamingLastAccess.get? sym
        = if sym = q.1 then some nowMono else s.streamingLastAccess.get? sym := by
  unfold access at h
  cases hsym : s.streamingTickers.get? q.1 with
  | some ticker =>
    have hlive : q.1 ∈ s.streamingTickers.keys := by
      rw [← InsertionDict.isSome_get?, hsym]
      rfl
    simp only [hsym, Option.some.injEq] at h
    subst h
    exact ⟨.inl hlive, fun sym => ⟨.inr, fun hmem => hmem.elim (· ▸ hlive) id⟩,
      fun sym => InsertionDict.get?_set ..⟩
  | none =>
    simp only [hsym, Option.map_eq_some_iff] at h
    obtain ⟨ticker, hticker, rfl⟩ := h
    refine ⟨.inr (by rw [hticker]; rfl), fun sym => ?_, fun sym => InsertionDict.get?_set ..⟩
    exact InsertionDict.mem_keys_set

/-- A symbol that cannot be read is not live, and its request raises. -/
theorem access_eq_none {nowMono : Time} {q : String × Option Ticker} {s : Subscriptions Ticker}
    (h : s.access nowMono q = none) : ¬ (q.1 ∈ s.streamingTickers.keys ∨ q.2.isSome = true) := by
  unfold access at h
  cases hsym : s.streamingTickers.get? q.1 with
  | some ticker =>
    simp only [hsym] at h
    cases h
  | none =>
    simp only [hsym, Option.map_eq_none_iff] at h
    rw [h]
    rintro (hlive | hsome)
    · exact InsertionDict.get?_eq_none_iff.mp hsym hlive
    · cases hsome

/-- **The loop stamps what it reads with the clock**, and nothing else. -/
theorem get?_subscribe (nowMono : Time) (qualified : List (String × Option Ticker))
    (s : Subscriptions Ticker) (sym : String) :
    (subscribe nowMono qualified s).1.streamingLastAccess.get? sym
      = if sym ∈ served s.streamingTickers.keys qualified then some nowMono
        else s.streamingLastAccess.get? sym := by
  induction qualified generalizing s with
  | nil => rfl
  | cons q rest ih =>
    unfold subscribe served
    cases haccess : s.access nowMono q with
    | none =>
      rw [if_neg (access_eq_none haccess)]
      rfl
    | some s' =>
      obtain ⟨hreads, hlive, hlast⟩ := access_cases haccess
      dsimp only
      have hserved : served s'.streamingTickers.keys rest
          = served (q.1 :: s.streamingTickers.keys) rest :=
        served_congr (fun sym => by rw [hlive sym, List.mem_cons]) rest
      rw [if_pos hreads, ih s', hlast, hserved]
      by_cases hsym : sym = q.1
      · rw [if_pos hsym, ite_self, if_pos (hsym ▸ List.mem_cons_self)]
      · rw [if_neg hsym]
        simp only [List.mem_cons, hsym, false_or]

/-- A loop that comes to its end reads all that it names. -/
theorem served_eq_of_subscribe {nowMono : Time} {qualified : List (String × Option Ticker)}
    {s : Subscriptions Ticker} (h : (subscribe nowMono qualified s).2 = true) :
    served s.streamingTickers.keys qualified = qualified.map Prod.fst := by
  induction qualified generalizing s with
  | nil => rfl
  | cons q rest ih =>
    unfold subscribe at h
    unfold served
    cases haccess : s.access nowMono q with
    | none =>
      rw [haccess] at h
      cases h
    | some s' =>
      obtain ⟨hreads, hlive, -⟩ := access_cases haccess
      rw [haccess] at h
      have hserved : served (q.1 :: s.streamingTickers.keys) rest
          = served s'.streamingTickers.keys rest :=
        served_congr (fun sym => by rw [hlive sym, List.mem_cons]) rest
      rw [if_pos hreads, List.map_cons, ← ih h, hserved]

theorem InSync.evictIdleSubscriptions {limits : StreamingLimits} {nowMono : Time}
    {s : Subscriptions Ticker} (hs : s.InSync) :
    (s.evictIdleSubscriptions limits nowMono).1.InSync := by
  show (s.streamingTickers.popAll _).keys = (s.streamingLastAccess.popAll _).keys
  rw [InsertionDict.keys_popAll, InsertionDict.keys_popAll, hs]

/-! ## What is evicted -/

section Eviction

variable {limits} {nowMono : Time} {s : Subscriptions Ticker} {sym : String} {last : Time}

/-- In step, every unpinned symbol is evictable. -/
theorem mem_evictable (hs : s.InSync) : (sym, last) ∈ s.evictable limits
    ↔ sym ∉ limits.pinnedSymbols ∧ s.streamingLastAccess.get? sym = some last := by
  have hlive : (sym, last) ∈ s.streamingLastAccess.entries → sym ∈ s.streamingTickers.keys :=
    fun h => hs ▸ InsertionDict.mem_keys.mpr ⟨last, h⟩
  unfold evictable
  rw [List.mem_filter, InsertionDict.get?_eq_some_iff]
  simp only [decide_eq_true_eq]
  exact ⟨fun h => ⟨h.2.1, h.1⟩, fun h => ⟨h.2, h.1, hlive h.2⟩⟩

theorem nodup_evictable : ((s.evictable limits).map Prod.fst).Nodup :=
  s.streamingLastAccess.nodup_map_filter _

/-- The idle symbols are those not read for longer than the limit. -/
theorem mem_idleSymbols (hs : s.InSync) : sym ∈ s.idleSymbols limits nowMono
    ↔ sym ∉ limits.pinnedSymbols ∧ ∃ last, s.streamingLastAccess.get? sym = some last
      ∧ limits.streamingIdleEvictSeconds < nowMono - last := by
  unfold idleSymbols
  simp only [List.mem_map, List.mem_filter, decide_eq_true_eq]
  constructor
  · rintro ⟨⟨sym, last⟩, ⟨hmem, hidle⟩, rfl⟩
    obtain ⟨hpinned, hlast⟩ := (mem_evictable hs).mp hmem
    exact ⟨hpinned, last, hlast, hidle⟩
  · rintro ⟨hpinned, last, hlast, hidle⟩
    exact ⟨(sym, last), ⟨(mem_evictable hs).mpr ⟨hpinned, hlast⟩, hidle⟩, rfl⟩

theorem nodup_idleSymbols : (s.idleSymbols limits nowMono).Nodup :=
  nodup_evictable.sublist (List.filter_sublist.map Prod.fst)

theorem mem_survivors (hs : s.InSync) : (sym, last) ∈ s.survivors limits nowMono
    ↔ sym ∉ limits.pinnedSymbols ∧ s.streamingLastAccess.get? sym = some last
      ∧ sym ∉ s.idleSymbols limits nowMono := by
  unfold survivors
  rw [List.mem_mergeSort, List.mem_filter, mem_evictable hs, and_assoc]
  simp only [decide_eq_true_eq]

theorem nodup_survivors : ((s.survivors limits nowMono).map Prod.fst).Nodup := by
  refine (((List.mergeSort_perm _ _).map Prod.fst).nodup_iff).mpr ?_
  exact nodup_evictable.sublist (List.filter_sublist.map Prod.fst)

variable (limits nowMono s) in
/-- The survivors are sorted by last access. -/
theorem pairwise_survivors :
    (s.survivors limits nowMono).Pairwise fun a b => a.2 ≤ b.2 := by
  have h : (s.survivors limits nowMono).Pairwise fun a b => decide (a.2 ≤ b.2) = true :=
    List.pairwise_mergeSort
      (fun a b c hab hbc => by simp only [decide_eq_true_eq] at *; exact hab.trans hbc)
      (fun a b => by simpa using le_total a.2 b.2)
      ((s.evictable limits).filter fun e => e.1 ∉ s.idleSymbols limits nowMono)
  exact h.imp fun hab => of_decide_eq_true hab

/-- What is taken for the cap comes from the survivors, and is read no later
than what is left of them. -/
theorem mem_overCap (h : sym ∈ s.overCap limits nowMono) :
    (limits.maxStreamingSubscriptions : ℤ) < s.liveCount limits nowMono
      ∧ ∃ last, (sym, last) ∈ s.survivors limits nowMono ∧ ∀ e ∈ s.survivors limits nowMono,
        e.1 ∉ s.overCap limits nowMono → last ≤ e.2 := by
  unfold overCap at h ⊢
  dsimp only at h ⊢
  split_ifs at h ⊢ with hover
  · set n := (s.liveCount limits nowMono - limits.maxStreamingSubscriptions).toNat
    obtain ⟨⟨sym, last⟩, htaken, rfl⟩ := List.mem_map.mp h
    refine ⟨hover, last, List.mem_of_mem_take htaken, fun e he hleft => ?_⟩
    have hsplit := pairwise_survivors limits nowMono s
    rw [← List.take_append_drop n (s.survivors limits nowMono)] at he hsplit
    refine (List.pairwise_append.mp hsplit).2.2 _ htaken _ ?_
    exact (List.mem_append.mp he).resolve_left fun h => hleft (List.mem_map_of_mem h)
  · cases h

theorem overCap_sublist :
    (s.overCap limits nowMono).Sublist ((s.survivors limits nowMono).map Prod.fst) := by
  unfold overCap
  dsimp only
  split_ifs
  · exact (List.take_sublist _ _).map Prod.fst
  · exact List.nil_sublist _

/-- What is evicted is live and not pinned. -/
theorem of_mem_toEvict (hs : s.InSync) (h : sym ∈ s.toEvict limits nowMono) :
    sym ∉ limits.pinnedSymbols ∧ sym ∈ s.streamingTickers.keys := by
  have hlive : ∀ {last}, s.streamingLastAccess.get? sym = some last →
      sym ∈ s.streamingTickers.keys := fun hlast => by
    rw [hs, ← InsertionDict.isSome_get?, hlast]
    rfl
  rcases List.mem_append.mp h with h | h
  · obtain ⟨hpinned, last, hlast, -⟩ := (mem_idleSymbols hs).mp h
    exact ⟨hpinned, hlive hlast⟩
  · obtain ⟨-, last, hmem, -⟩ := mem_overCap h
    obtain ⟨hpinned, hlast, -⟩ := (mem_survivors hs).mp hmem
    exact ⟨hpinned, hlive hlast⟩

variable (limits nowMono) in
theorem nodup_toEvict (hs : s.InSync) : (s.toEvict limits nowMono).Nodup := by
  refine nodup_idleSymbols.append (nodup_survivors.sublist overCap_sublist) ?_
  intro sym hidle hover
  obtain ⟨-, last, hmem, -⟩ := mem_overCap hover
  exact ((mem_survivors hs).mp hmem).2.2 hidle

/-! ## How many are left -/

/-- The live symbols that are pinned. -/
def pinnedLive (limits : StreamingLimits) (s : Subscriptions Ticker) : List String :=
  s.streamingTickers.keys.filter (· ∈ limits.pinnedSymbols)

variable (limits) in
/-- A live symbol is pinned or evictable. -/
theorem length_pinnedLive_add (hs : s.InSync) :
    (s.pinnedLive limits).length + (s.evictable limits).length = s.streamingTickers.size := by
  have hevictable : (s.evictable limits).map Prod.fst
      = s.streamingTickers.keys.filter (· ∉ limits.pinnedSymbols) := by
    rw [hs, InsertionDict.keys, List.filter_map]
    unfold evictable
    refine congrArg _ (List.filter_congr fun e he => ?_)
    have hlive : e.1 ∈ s.streamingTickers.keys := by
      rw [hs]
      exact List.mem_map_of_mem he
    simp [hlive]
  have hlength : ((s.evictable limits).map Prod.fst).length = (s.evictable limits).length :=
    List.length_map _
  rw [← hlength, hevictable, ← InsertionDict.length_keys, pinnedLive]
  simpa using (List.length_eq_length_filter_add (l := s.streamingTickers.keys)
    (· ∈ limits.pinnedSymbols)).symm

variable (limits nowMono) in
/-- What is evictable is idle or survives. -/
theorem length_idleSymbols_add (hs : s.InSync) :
    (s.idleSymbols limits nowMono).length + (s.survivors limits nowMono).length
      = (s.evictable limits).length := by
  have hsurvivors : (s.evictable limits).filter (fun e => e.1 ∉ s.idleSymbols limits nowMono)
      = (s.evictable limits).filter
        fun e => !decide (limits.streamingIdleEvictSeconds < nowMono - e.2) := by
    refine List.filter_congr fun e he => ?_
    rw [← decide_not]
    refine decide_eq_decide.mpr (not_congr ?_)
    obtain ⟨hpinned, hlast⟩ := (mem_evictable hs).mp he
    rw [mem_idleSymbols hs, hlast]
    exact ⟨fun ⟨_, last, heq, h⟩ => Option.some.inj heq ▸ h, fun h => ⟨hpinned, e.2, rfl, h⟩⟩
  rw [idleSymbols, List.length_map, survivors, List.length_mergeSort, hsurvivors]
  exact (List.length_eq_length_filter_add (l := s.evictable limits)
    (fun e => limits.streamingIdleEvictSeconds < nowMono - e.2)).symm

variable (limits nowMono) in
/-- **What is left**: what is not idle, less what goes for the cap. -/
theorem size_evictIdleSubscriptions (hs : s.InSync) :
    ((s.evictIdleSubscriptions limits nowMono).1.streamingTickers.size : ℤ)
      = s.liveCount limits nowMono - (s.overCap limits nowMono).length := by
  have hsize := InsertionDict.size_popAll (nodup_toEvict limits nowMono hs)
    fun sym h => (of_mem_toEvict hs h).2
  show ((s.streamingTickers.popAll (s.toEvict limits nowMono)).size : ℤ) = _
  rw [toEvict, List.length_append] at hsize
  unfold liveCount
  rw [toEvict]
  omega

/-! ## What an eviction owes -/

/-- The symbol was last read longer ago than the limit. -/
def Idle (limits : StreamingLimits) (nowMono : Time) (s : Subscriptions Ticker)
    (sym : String) : Prop :=
  ∃ last, s.streamingLastAccess.get? sym = some last
    ∧ limits.streamingIdleEvictSeconds < nowMono - last

/-- The symbol was live and is not any more. -/
def Removed (s s' : Subscriptions Ticker) (sym : String) : Prop :=
  sym ∈ s.streamingTickers.keys ∧ sym ∉ s'.streamingTickers.keys

/-- **What an eviction owes**, from the subscriptions `s` to what it leaves
of them. -/
structure Evicts (limits : StreamingLimits) (nowMono : Time) (s s' : Subscriptions Ticker) :
    Prop where
  /-- What is left is as it was. -/
  kept : ∀ sym ∈ s'.streamingTickers.keys,
    s'.streamingTickers.get? sym = s.streamingTickers.get? sym
      ∧ s'.streamingLastAccess.get? sym = s.streamingLastAccess.get? sym
  pinned : ∀ sym ∈ limits.pinnedSymbols, ¬ Removed s s' sym
  idle : ∀ sym ∈ s.streamingTickers.keys, sym ∉ limits.pinnedSymbols →
    s.Idle limits nowMono sym → Removed s s' sym
  /-- What else goes was read no later than what stays. -/
  leastRecent : ∀ sym last, Removed s s' sym → ¬ s.Idle limits nowMono sym →
    s.streamingLastAccess.get? sym = some last →
    ∀ sym' ∈ s'.streamingTickers.keys, sym' ∉ limits.pinnedSymbols →
    ∀ last', s.streamingLastAccess.get? sym' = some last' → last ≤ last'
  /-- Where anything else goes, with one less of it the cap is not met. -/
  needed : ∀ sym, Removed s s' sym → ¬ s.Idle limits nowMono sym →
    limits.maxStreamingSubscriptions ≤ s'.streamingTickers.size
  capped : s'.streamingTickers.size
    ≤ max limits.maxStreamingSubscriptions (s.pinnedLive limits).length

theorem removed_iff (hs : s.InSync) :
    Removed s (s.evictIdleSubscriptions limits nowMono).1 sym ↔ sym ∈ s.toEvict limits nowMono := by
  show sym ∈ s.streamingTickers.keys ∧ sym ∉ (s.streamingTickers.popAll _).keys ↔ _
  rw [InsertionDict.mem_keys_popAll]
  exact ⟨fun ⟨hlive, h⟩ => not_not.mp fun hmem => h ⟨hlive, hmem⟩,
    fun h => ⟨(of_mem_toEvict hs h).2, fun hleft => hleft.2 h⟩⟩

/-- What goes and is not idle goes for the cap. -/
theorem mem_overCap_of_removed (hs : s.InSync)
    (h : Removed s (s.evictIdleSubscriptions limits nowMono).1 sym)
    (hidle : ¬ s.Idle limits nowMono sym) : sym ∈ s.overCap limits nowMono :=
  (List.mem_append.mp ((removed_iff hs).mp h)).resolve_left fun hmem =>
    hidle ((mem_idleSymbols hs).mp hmem).2

variable (limits nowMono s) in
/-- How many go for the cap: the excess, as far as there are survivors. -/
theorem length_overCap : (s.overCap limits nowMono).length
    = min (s.liveCount limits nowMono - limits.maxStreamingSubscriptions).toNat
      (s.survivors limits nowMono).length := by
  unfold overCap
  dsimp only
  split_ifs with hover
  · rw [List.length_map, List.length_take]
  · rw [List.length_nil]
    omega

/-- **The eviction owes nothing.** -/
theorem InSync.evicts (hs : s.InSync) :
    Evicts limits nowMono s (s.evictIdleSubscriptions limits nowMono).1 := by
  have hsize := size_evictIdleSubscriptions limits nowMono hs
  have hover := length_overCap limits nowMono s
  have hcount := length_idleSymbols_add limits nowMono hs
  have hpinned := length_pinnedLive_add limits hs
  have hlive : s.liveCount limits nowMono
      = s.streamingTickers.size - (s.idleSymbols limits nowMono).length := rfl
  constructor
  case kept =>
    intro sym hsym
    have hleft := (InsertionDict.mem_keys_popAll.mp hsym).2
    show (s.streamingTickers.popAll _).get? sym = _ ∧ (s.streamingLastAccess.popAll _).get? sym = _
    rw [InsertionDict.get?_popAll, InsertionDict.get?_popAll, if_neg hleft, if_neg hleft]
    exact ⟨rfl, rfl⟩
  case pinned => exact fun sym hsym h => (of_mem_toEvict hs ((removed_iff hs).mp h)).1 hsym
  case idle =>
    intro sym _ hunpinned hidle
    exact (removed_iff hs).mpr
      (List.mem_append_left _ ((mem_idleSymbols hs).mpr ⟨hunpinned, hidle⟩))
  case leastRecent =>
    intro sym last h hidle hlast sym' hsym' hunpinned' last' hlast'
    obtain ⟨-, last₀, hmem, hle⟩ := mem_overCap (mem_overCap_of_removed hs h hidle)
    have heq := (mem_survivors hs).mp hmem
    obtain rfl : last₀ = last := Option.some.inj (heq.2.1.symm.trans hlast)
    -- what stays is neither idle nor taken for the cap, so it is a survivor
    have hleft := (InsertionDict.mem_keys_popAll.mp hsym').2
    rw [toEvict, List.mem_append, not_or] at hleft
    exact hle (sym', last') ((mem_survivors hs).mpr ⟨hunpinned', hlast', hleft.1⟩) hleft.2
  case needed =>
    intro sym h hidle
    have hcap := (mem_overCap (mem_overCap_of_removed hs h hidle)).1
    omega
  case capped => omega

end Eviction

end Subscriptions

/-! ## Sessions -/

/-- **A session**: the subscriptions, the clock of the event loop, and what
the calls in their warm-up have stamped with. -/
structure StreamingSession (Ticker : Type) where
  subscriptions : Subscriptions Ticker := {}
  clock : Time
  warmingUp : List Time := []
  /-- What has been read, by which clock, the latest call first. Nothing reads it. -/
  reads : List (String × Time) := []

namespace StreamingSession

variable {Ticker : Type}

/-- The blocks that run between two awaits. -/
inductive Label (Ticker : Type) where
  /-- Time passes. -/
  | wait (seconds : Time)
  /-- `get_quotes` subscribes to the qualified symbols, and goes into its
  warm-up. -/
  | getQuotes (qualified : List (String × Option Ticker))
  /-- A call comes out of its warm-up, and evicts. -/
  | evict (call : ℕ)
  /-- `_on_disconnected`. -/
  | disconnected

/-- A call that asks for market data. -/
def getQuotes (s : StreamingSession Ticker) (qualified : List (String × Option Ticker)) :
    StreamingSession Ticker :=
  let subscribed := Subscriptions.subscribe s.clock qualified s.subscriptions
  { s with
    subscriptions := subscribed.1
    warmingUp := if subscribed.2 then s.warmingUp ++ [s.clock] else s.warmingUp
    reads := (Subscriptions.served s.subscriptions.streamingTickers.keys qualified).map (·, s.clock)
      ++ s.reads }

/-- **The session as a machine.** -/
def machine (limits : StreamingLimits) :
    Machine (StreamingSession Ticker) (Label Ticker) where
  step s
    | .wait seconds =>
      if 0 ≤ seconds then some { s with clock := s.clock + seconds } else none
    | .getQuotes qualified => some (s.getQuotes qualified)
    | .evict call => s.warmingUp[call]?.map fun nowMono =>
      { s with
        subscriptions := (s.subscriptions.evictIdleSubscriptions limits nowMono).1
        warmingUp := s.warmingUp.eraseIdx call }
    | .disconnected => some { s with subscriptions := {} }

variable {limits : StreamingLimits} {s t : StreamingSession Ticker} {l : Label Ticker}

/-- Every block keeps the two dictionaries in step. -/
theorem inSync_step (hs : s.subscriptions.InSync)
    (h : (machine limits).step s l = some t) : t.subscriptions.InSync := by
  cases l with
  | wait seconds =>
    obtain ⟨-, h⟩ := Option.ite_none_right_eq_some.mp h
    obtain rfl := Option.some.inj h
    exact hs
  | getQuotes qualified =>
    obtain rfl := Option.some.inj h
    exact hs.subscribe
  | evict call =>
    obtain ⟨nowMono, -, rfl⟩ := Option.map_eq_some_iff.mp h
    exact hs.evictIdleSubscriptions
  | disconnected =>
    obtain rfl := Option.some.inj h
    exact Subscriptions.inSync_empty

/-- **In every state of a session the two dictionaries are in step.** -/
theorem inSync {clock : Time} {ls : List (Label Ticker)}
    (h : (machine limits).run { clock := clock } ls = some s) : s.subscriptions.InSync :=
  Machine.run_invariant' (J := fun s => s.subscriptions.InSync)
    (fun _ _ _ hs hstep => inSync_step hs hstep) Subscriptions.inSync_empty h

/-- **What is open has the clock of the last call that has read it.** -/
def LastRead (s : StreamingSession Ticker) : Prop :=
  ∀ sym last, s.subscriptions.streamingLastAccess.get? sym = some last →
    s.reads.lookup sym = some last

/-- The clock of a call is that of the last call for what it reads. -/
theorem lookup_reads (served : List String) (clock : Time) (reads : List (String × Time))
    (sym : String) : (served.map (·, clock) ++ reads).lookup sym
      = if sym ∈ served then some clock else reads.lookup sym := by
  induction served with
  | nil => rfl
  | cons x served ih =>
    rw [List.map_cons, List.cons_append, List.lookup_cons]
    by_cases hx : sym = x
    · rw [if_pos (hx ▸ List.mem_cons_self), hx, beq_self_eq_true]
    · rw [beq_eq_false_iff_ne.mpr hx, ih]
      simp only [List.mem_cons, hx, false_or]

/-- Every block keeps it so. -/
theorem lastRead_step (hs : s.LastRead) (h : (machine limits).step s l = some t) :
    t.LastRead := by
  cases l with
  | wait seconds =>
    obtain ⟨-, h⟩ := Option.ite_none_right_eq_some.mp h
    obtain rfl := Option.some.inj h
    exact hs
  | getQuotes qualified =>
    obtain rfl := Option.some.inj h
    intro sym last hlast
    have hstamped : (Subscriptions.subscribe s.clock qualified
        s.subscriptions).1.streamingLastAccess.get? sym = some last := hlast
    rw [Subscriptions.get?_subscribe] at hstamped
    show (_ ++ s.reads).lookup sym = _
    rw [lookup_reads]
    split_ifs at hstamped ⊢
    · exact hstamped
    · exact hs sym last hstamped
  | evict call =>
    obtain ⟨nowMono, -, rfl⟩ := Option.map_eq_some_iff.mp h
    intro sym last hlast
    have hleft : (s.subscriptions.streamingLastAccess.popAll _).get? sym = some last := hlast
    rw [InsertionDict.get?_popAll] at hleft
    split_ifs at hleft
    exact hs sym last hleft
  | disconnected =>
    obtain rfl := Option.some.inj h
    intro sym last hlast
    cases hlast

theorem lastRead {clock : Time} {ls : List (Label Ticker)}
    (h : (machine limits).run { clock := clock } ls = some s) : s.LastRead :=
  Machine.run_invariant' (J := LastRead) (fun _ _ _ hs hstep => lastRead_step hs hstep)
    (fun _ _ hlast => by cases hlast) h

/-- **In every session** the same symbols are live and have a last access, which is the
clock of the last call that has read them, and every eviction, whatever clock it goes
by, leaves the pinned symbols, takes the idle ones, and beyond these only the least
recently used, no more than needed for the cap. -/
theorem subscriptions_evicted (limits : StreamingLimits) (clock : Time)
    (ls : List (Label Ticker)) (s : StreamingSession Ticker)
    (h : (machine limits).run { clock := clock } ls = some s) :
    (∀ sym, sym ∈ s.subscriptions.streamingTickers.keys
      ↔ sym ∈ s.subscriptions.streamingLastAccess.keys)
    ∧ (∀ sym last, s.subscriptions.streamingLastAccess.get? sym = some last →
      s.reads.lookup sym = some last)
    ∧ ∀ nowMono, Subscriptions.Evicts limits nowMono s.subscriptions
      (s.subscriptions.evictIdleSubscriptions limits nowMono).1 :=
  ⟨fun sym => by rw [inSync h], lastRead h, fun _ => (inSync h).evicts⟩

/-- Three symbols are read one after the other, the second once more, with a cap of
two. -/
theorem subscriptions_evicted_three :
    ∃ s, (machine { maxStreamingSubscriptions := 2 }).run { clock := 0 }
        [.getQuotes [("XSP", some 0)], .wait 1, .getQuotes [("A", some 1)], .wait 1,
          .getQuotes [("B", some 2)], .wait 1, .getQuotes [("A", none)]] = some s
      ∧ s.reads = [("A", 3), ("B", 2), ("A", 1), ("XSP", 0)]
      ∧ (∀ sym last, s.subscriptions.streamingLastAccess.get? sym = some last →
        s.reads.lookup sym = some last)
      ∧ ∀ nowMono, Subscriptions.Evicts { maxStreamingSubscriptions := 2 } nowMono
        s.subscriptions
        (s.subscriptions.evictIdleSubscriptions { maxStreamingSubscriptions := 2 } nowMono).1 :=
  ⟨_, rfl, by decide +kernel, (subscriptions_evicted { maxStreamingSubscriptions := 2 } 0
    [.getQuotes [("XSP", some 0)], .wait 1, .getQuotes [("A", some 1)], .wait 1,
      .getQuotes [("B", some 2)], .wait 1, .getQuotes [("A", none)]] _ rfl).2⟩

end StreamingSession
