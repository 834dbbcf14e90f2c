import Mathlib
import LambdaEthereumConsensus.Fallible.List

/-
  LambdaEthereumConsensus.Store.LRUCache — the cache `Store.Blocks` and `Store.BlockStates` keep
  in front of their databases (`store/lru_cache.ex`): a GenServer that owns two ETS tables, the
  data table (`{key, value, uniq}`, a `:set`) and the TTL table (`{uniq, key}`, an
  `:ordered_set` by `uniq`), and writes through to the database with its `store_func`.

  `put/3` is a call: the server writes the database, caches the value and stamps the key twice,
  once in `cache_value/3` and once more in `handle_call/3`. `get/3` runs in its caller: a hit in
  the data table casts a stamp (`touch_entry`), a miss reads the database and calls the server to
  cache what it read. A stamp takes a fresh `:erlang.unique_integer([:monotonic])` (the clock) and
  then prunes: past `max_entries`, the `to_prune + batch_prune_size` oldest stamps go, each with
  its key's entry. ETS tables are association lists; `:ets.select/3` on the TTL table gives its
  first objects in the order of their stamps, and `'$end_of_table'` on an empty table, which the
  match in `prune_cache/1` does not take.

  Proved:
  - The server never raises. Every entry of the data table carries a stamp that the TTL table
    maps back to its key, and every stamp was drawn before the clock (`Stamped`); every message
    keeps that and succeeds, so from the empty cache no interleaving of callers and server makes
    a message raise (`serve_never_raises`).
  - One operation at a time, the cache is the database: every entry holds the database's value
    (`Coherent`), so each `get/3` returns what the database holds, and a run is the run of a plain
    map (`run_refines_map`).
  - Interleaved, it is not: a `get/3` that misses while a `put/3` of the same key waits in the
    server's mailbox caches the value the put replaces, and hits serve it from then on
    (`get_racing_put_caches_stale`).
  - `cache_value/3` overwrites the entry's stamp with `nil` before `update_ttl/3` reads it, so a
    `put/3` of a cached key leaves its old stamp in the TTL table, still naming the key
    (`put_cached_keeps_old_stamp`).
-/

namespace LambdaEthereumConsensus.Store.LRUCache

/-- The options of `start_link/1` that the server keeps (`store_func` is the database write of
    `put`). -/
structure Options where
  maxEntries : Nat
  batchPruneSize : Nat
  deriving DecidableEq, Repr

/-- `@default_opts`. -/
def Options.default : Options := ⟨512, 32⟩

variable {κ ν : Type} [DecidableEq κ]

/-- The data table: each key's value and stamp, `nil` (`none`) between `cache_value/3`'s insert
    and its stamp. -/
abbrev DataTable (κ ν : Type) := AList fun _ : κ => ν × Option Nat

/-- The TTL table: each stamp's key. -/
abbrev TtlTable (κ : Type) := AList fun _ : Nat => κ

/-- The server's two tables, the next value of the clock, and the database that `store_func`
    writes and the callers' `fetch_func` reads. -/
structure Cache (κ ν : Type) where
  data : DataTable κ ν
  ttl : TtlTable κ
  clock : Nat
  db : κ → Option ν

/-- The tables `init/1` creates, in front of a database. -/
def Cache.init (db : κ → Option ν) : Cache κ ν := ⟨∅, ∅, 0, db⟩

/-! ## ETS -/

/-- `:ets.lookup_element(data_table, key, 3, nil)`: the key's stamp, `nil` for a key not there. -/
def lookupStamp (data : DataTable κ ν) (key : κ) : Option Nat := (data.lookup key).bind Prod.snd

/-- `:ets.update_element(data_table, key, {3, uniq})`: a key that is not there is left out. -/
def updateStamp (data : DataTable κ ν) (key : κ) (uniq : Nat) : DataTable κ ν :=
  match data.lookup key with
  | some entry => data.insert key (entry.1, some uniq)
  | none => data

/-- `:ets.insert_new(ttl_table, {uniq, key})`: nothing if the stamp is taken. -/
def insertNew (ttl : TtlTable κ) (uniq : Nat) (key : κ) : TtlTable κ :=
  if uniq ∈ ttl then ttl else ttl.insert uniq key

/-- `:ets.select(ttl_table, [{:_, [], [:"$_"]}], limit)`: the first `limit` objects in the order
    of their stamps, `none` where an empty table gives `'$end_of_table'`. -/
def selectOldest (ttl : TtlTable κ) (limit : Nat) : Option (List (Nat × κ)) :=
  if ttl.entries.isEmpty then none
  else some (((ttl.entries.map fun entry => (entry.1, entry.2)).mergeSort fun a b => a.1 ≤ b.1).take limit)

/-! ## The server -/

section Server

variable (opts : Options)

/-- `delete_ttl/3`. -/
def deleteTtl (c : Cache κ ν) (key : κ) : Cache κ ν :=
  match lookupStamp c.data key with
  | none => c
  | some uniq => { c with ttl := c.ttl.erase uniq }

/-- `update_ttl/3`. -/
def updateTtl (c : Cache κ ν) (key : κ) : Cache κ ν :=
  let c := deleteTtl c key
  { c with clock := c.clock + 1, ttl := insertNew c.ttl c.clock key, data := updateStamp c.data key c.clock }

/-- One object of the selection in `prune_cache/1`: its stamp and its key's entry go. -/
def evict (c : Cache κ ν) (entry : Nat × κ) : Cache κ ν :=
  { c with ttl := c.ttl.erase entry.1, data := c.data.erase entry.2 }

/-- `prune_cache/1`; `to_prune`, an Elixir integer, is positive exactly when its truncated
    difference is. -/
def pruneCache (c : Cache κ ν) : Option (Cache κ ν) :=
  let toPrune := c.data.entries.length - opts.maxEntries
  if 0 < toPrune then do
    let elems ← selectOldest c.ttl (toPrune + opts.batchPruneSize)
    pure (elems.foldl evict c)
  else pure c

/-- `touch_entry/2`. -/
def touchEntry (c : Cache κ ν) (key : κ) : Option (Cache κ ν) := pruneCache opts (updateTtl c key)

/-- `cache_value/3`. -/
def cacheValue (c : Cache κ ν) (key : κ) (value : ν) : Option (Cache κ ν) :=
  touchEntry opts { c with data := c.data.insert key (value, none) } key

/-- `handle_call({:put, key, value}, _, state)`: the database first, then the tables. -/
def put (c : Cache κ ν) (key : κ) (value : ν) : Option (Cache κ ν) := do
  let c ← cacheValue opts { c with db := Function.update c.db key (some value) } key value
  touchEntry opts c key

/-- A message in the server's mailbox: the calls of `put/3` and of `get/3` on a miss, and the
    cast of `get/3` on a hit. -/
inductive Msg (κ ν : Type) where
  | put (key : κ) (value : ν)
  | cacheValue (key : κ) (value : ν)
  | touchEntry (key : κ)

/-- The server handling one message. -/
def serve (c : Cache κ ν) : Msg κ ν → Option (Cache κ ν)
  | .put key value => put opts c key value
  | .cacheValue key value => cacheValue opts c key value
  | .touchEntry key => touchEntry opts c key

/-! ## One operation at a time -/

/-- `get/3` run to its end, its cast handled before anything else. -/
def get (c : Cache κ ν) (key : κ) : Option (Option ν × Cache κ ν) :=
  match c.data.lookup key with
  | some entry => do
    let c ← touchEntry opts c key
    pure (some entry.1, c)
  | none =>
    match c.db key with
    | none => pure (none, c)
    | some value => do
      let c ← cacheValue opts c key value
      pure (some value, c)

/-- An operation of the cache's callers. -/
inductive Op (κ ν : Type) where
  | put (key : κ) (value : ν)
  | get (key : κ)

/-- What an operation returns: `:ok`, or the value `get/3` found (`nil` for none). -/
inductive Reply (ν : Type) where
  | ok
  | value (value : Option ν)
  deriving DecidableEq, Repr

/-- One operation run to its end. -/
def apply (op : Op κ ν) (c : Cache κ ν) : Option (Reply ν × Cache κ ν) :=
  match op with
  | .put key value => (put opts c key value).map fun c => (.ok, c)
  | .get key => (get opts c key).map fun result => (.value result.1, result.2)

/-- Operations run one after the other. -/
def run (ops : List (Op κ ν)) (c : Cache κ ν) : Option (List (Reply ν) × Cache κ ν) :=
  Fallible.mapReduce (apply opts) ops c

end Server

/-- What the cache stands for: a map that `put/3` writes and `get/3` reads. -/
def mapApply (op : Op κ ν) (m : κ → Option ν) : Reply ν × (κ → Option ν) :=
  match op with
  | .put key value => (.ok, Function.update m key (some value))
  | .get key => (.value (m key), m)


/-! ## Stamps -/

section Stamps

@[simp] theorem lookup_updateStamp_self (data : DataTable κ ν) (key : κ) (uniq : Nat) :
    (updateStamp data key uniq).lookup key = (data.lookup key).map fun entry => (entry.1, some uniq) := by
  unfold updateStamp
  split <;> simp_all [AList.lookup_insert]

@[simp] theorem lookup_updateStamp_ne {data : DataTable κ ν} {key k : κ} (uniq : Nat) (hk : k ≠ key) :
    (updateStamp data key uniq).lookup k = data.lookup k := by
  unfold updateStamp
  split <;> simp [AList.lookup_insert_ne hk]

omit [DecidableEq κ] in
theorem insertNew_of_notMem {ttl : TtlTable κ} {uniq : Nat} (key : κ) (huniq : uniq ∉ ttl) :
    insertNew ttl uniq key = ttl.insert uniq key := if_neg huniq

/-- What the server keeps between messages: every entry of the data table carries a stamp that
    the TTL table maps back to its key, and the clock is past every stamp. -/
structure Stamped (c : Cache κ ν) : Prop where
  stamped : ∀ key entry, c.data.lookup key = some entry → ∃ uniq, entry.2 = some uniq ∧ c.ttl.lookup uniq = some key
  fresh : ∀ uniq ∈ c.ttl, uniq < c.clock

/-- What a stamp of `key` needs to leave the cache stamped: every other entry is stamped, `key`'s
    own stamp is `nil` or maps back to it, and the clock is past every stamp. -/
structure StampedBut (c : Cache κ ν) (key : κ) : Prop where
  others : ∀ k entry, k ≠ key → c.data.lookup k = some entry → ∃ uniq, entry.2 = some uniq ∧ c.ttl.lookup uniq = some k
  self : ∀ uniq, lookupStamp c.data key = some uniq → c.ttl.lookup uniq = some key
  fresh : ∀ uniq ∈ c.ttl, uniq < c.clock

theorem Stamped.init (db : κ → Option ν) : Stamped (Cache.init db) :=
  ⟨fun _ _ h => by simp [Cache.init] at h, fun _ h => by simp [Cache.init] at h⟩

theorem Stamped.stampedBut {c : Cache κ ν} (hc : Stamped c) (key : κ) : StampedBut c key := by
  refine ⟨fun k entry _ hk => hc.stamped k entry hk, fun uniq huniq => ?_, hc.fresh⟩
  obtain ⟨entry, hentry, hstamp⟩ := Option.bind_eq_some_iff.mp huniq
  obtain ⟨uniq', hentry', httl⟩ := hc.stamped key entry hentry
  rw [hstamp] at hentry'
  cases hentry'
  exact httl

/-- `cache_value/3`'s insert leaves every entry but the inserted one stamped, and that one `nil`. -/
theorem Stamped.insert_nil {c : Cache κ ν} (hc : Stamped c) (key : κ) (value : ν) :
    StampedBut { c with data := c.data.insert key (value, none) } key := by
  refine ⟨fun k entry hk hentry => ?_, fun uniq huniq => ?_, hc.fresh⟩
  · rw [AList.lookup_insert_ne hk] at hentry
    exact hc.stamped k entry hentry
  · simp [lookupStamp, AList.lookup_insert] at huniq

/-- `delete_ttl/3` leaves the data table and the clock, and every stamp of another key. -/
theorem deleteTtl_lookup {c : Cache κ ν} {key : κ} (hc : StampedBut c key) {uniq : Nat} {k : κ} (hk : k ≠ key)
    (huniq : c.ttl.lookup uniq = some k) : (deleteTtl c key).ttl.lookup uniq = some k := by
  unfold deleteTtl
  split
  · exact huniq
  · rename_i stamp hstamp
    have hne : uniq ≠ stamp := by
      rintro rfl
      rw [hc.self uniq hstamp] at huniq
      exact hk (Option.some.inj huniq).symm
    rwa [AList.lookup_erase_ne hne]

theorem deleteTtl_data (c : Cache κ ν) (key : κ) : (deleteTtl c key).data = c.data ∧ (deleteTtl c key).clock = c.clock ∧
    (deleteTtl c key).db = c.db := by
  unfold deleteTtl
  split <;> simp

theorem mem_deleteTtl {c : Cache κ ν} {key : κ} {uniq : Nat} (huniq : uniq ∈ (deleteTtl c key).ttl) : uniq ∈ c.ttl := by
  unfold deleteTtl at huniq
  split at huniq
  · exact huniq
  · exact (AList.mem_erase.mp huniq).2

/-- A stamp of `key` leaves the cache stamped. -/
theorem updateTtl_stamped {c : Cache κ ν} {key : κ} (hc : StampedBut c key) : Stamped (updateTtl c key) := by
  obtain ⟨hdata, hclock, -⟩ := deleteTtl_data c key
  have hfresh : c.clock ∉ (deleteTtl c key).ttl := fun hmem => Nat.lt_irrefl _ (hc.fresh _ (mem_deleteTtl hmem))
  simp only [updateTtl, hclock, hdata, insertNew_of_notMem key hfresh]
  refine ⟨fun k entry hentry => ?_, fun uniq huniq => ?_⟩
  · by_cases hk : k = key
    · subst hk
      simp only [lookup_updateStamp_self, Option.map_eq_some_iff] at hentry
      obtain ⟨entry₀, -, rfl⟩ := hentry
      exact ⟨c.clock, rfl, AList.lookup_insert _⟩
    · rw [lookup_updateStamp_ne _ hk] at hentry
      obtain ⟨uniq, hstamp, httl⟩ := hc.others k entry hk hentry
      have hlt := hc.fresh uniq (AList.lookup_isSome.mp (by simp [httl]))
      refine ⟨uniq, hstamp, ?_⟩
      rw [AList.lookup_insert_ne (by omega)]
      exact deleteTtl_lookup hc hk httl
  · rcases (AList.mem_insert _).mp huniq with rfl | hmem
    · exact Nat.lt_succ_self _
    · exact Nat.lt_succ_of_lt (hc.fresh uniq (mem_deleteTtl hmem))

/-- An eviction of a stamp the TTL table maps to its key leaves the cache stamped. -/
theorem evict_stamped {c : Cache κ ν} (hc : Stamped c) {entry : Nat × κ} (hentry : c.ttl.lookup entry.1 = some entry.2) :
    Stamped (evict c entry) := by
  refine ⟨fun k e he => ?_, fun uniq huniq => hc.fresh uniq (AList.mem_erase.mp huniq).2⟩
  have hk : k ≠ entry.2 := by
    rintro rfl
    simp [evict, AList.lookup_erase] at he
  simp only [evict, AList.lookup_erase_ne hk] at he ⊢
  obtain ⟨uniq, hstamp, httl⟩ := hc.stamped k e he
  have hne : uniq ≠ entry.1 := by
    rintro rfl
    rw [hentry] at httl
    exact hk (Option.some.inj httl).symm
  exact ⟨uniq, hstamp, by rwa [AList.lookup_erase_ne hne]⟩

theorem foldl_evict_stamped : ∀ (elems : List (Nat × κ)) {c : Cache κ ν}, Stamped c → (elems.map Prod.fst).Nodup →
    (∀ entry ∈ elems, c.ttl.lookup entry.1 = some entry.2) → Stamped (elems.foldl evict c)
  | [], _, hc, _, _ => hc
  | entry :: elems, c, hc, hnodup, hentries => by
    rw [List.map_cons, List.nodup_cons] at hnodup
    refine foldl_evict_stamped elems (evict_stamped hc (hentries entry List.mem_cons_self)) hnodup.2 fun e he => ?_
    have hne : e.1 ≠ entry.1 := fun h => hnodup.1 (h ▸ List.mem_map_of_mem he)
    simp only [evict, AList.lookup_erase_ne hne]
    exact hentries e (List.mem_cons_of_mem _ he)

omit [DecidableEq κ] in
/-- The stamps `:ets.select/3` gives are the TTL table's, each once. -/
theorem selectOldest_spec {ttl : TtlTable κ} {limit : Nat} {elems : List (Nat × κ)} (h : selectOldest ttl limit = some elems) :
    (elems.map Prod.fst).Nodup ∧ ∀ entry ∈ elems, ttl.lookup entry.1 = some entry.2 := by
  unfold selectOldest at h
  split at h
  · cases h
  · cases h
    refine ⟨?_, fun entry hentry => ?_⟩
    · have hkeys : ((ttl.entries.map fun entry => (entry.1, entry.2)).map Prod.fst).Nodup := by
        simpa [List.map_map, Function.comp_def, AList.keys, List.keys] using ttl.keys_nodup
      exact ((List.mergeSort_perm _ _).map Prod.fst).nodup_iff.mpr hkeys |>.sublist ((List.take_sublist _ _).map _)
    · obtain ⟨e, he, rfl⟩ := List.mem_map.mp (List.mem_mergeSort.mp (List.mem_of_mem_take hentry))
      exact AList.mem_lookup_iff.mpr he

/-- A stamped cache with an entry has a stamp to select. -/
theorem selectOldest_isSome {c : Cache κ ν} (hc : Stamped c) (hdata : c.data.entries ≠ []) (limit : Nat) :
    (selectOldest c.ttl limit).isSome := by
  obtain ⟨entry, hentry⟩ := List.exists_mem_of_ne_nil _ hdata
  obtain ⟨uniq, -, httl⟩ := hc.stamped entry.1 entry.2 (AList.mem_lookup_iff.mpr hentry)
  have hmem : Sigma.mk uniq entry.1 ∈ c.ttl.entries := AList.mem_lookup_iff.mp httl
  unfold selectOldest
  rw [if_neg (by simpa [List.isEmpty_iff] using List.ne_nil_of_mem hmem)]
  rfl

end Stamps

/-- `c'` holds what `c` held, maybe with other stamps and fewer entries: what stamps and
    prunes do to the tables, with the database left alone. -/
structure KeepsValues (c c' : Cache κ ν) : Prop where
  db : c'.db = c.db
  values : ∀ key entry, c'.data.lookup key = some entry → ∃ entry₀, c.data.lookup key = some entry₀ ∧ entry₀.1 = entry.1

theorem KeepsValues.trans {c₁ c₂ c₃ : Cache κ ν} (h₁₂ : KeepsValues c₁ c₂) (h₂₃ : KeepsValues c₂ c₃) :
    KeepsValues c₁ c₃ := by
  refine ⟨h₂₃.db.trans h₁₂.db, fun key entry hentry => ?_⟩
  obtain ⟨entry₂, h₂, hvalue₂⟩ := h₂₃.values key entry hentry
  obtain ⟨entry₁, h₁, hvalue₁⟩ := h₁₂.values key entry₂ h₂
  exact ⟨entry₁, h₁, hvalue₁.trans hvalue₂⟩

theorem updateTtl_keepsValues (c : Cache κ ν) (key : κ) : KeepsValues c (updateTtl c key) := by
  obtain ⟨hdata, -, hdb⟩ := deleteTtl_data c key
  refine ⟨hdb, fun k entry hentry => ?_⟩
  simp only [updateTtl, hdata] at hentry
  by_cases hk : k = key
  · subst hk
    simp only [lookup_updateStamp_self, Option.map_eq_some_iff] at hentry
    obtain ⟨entry₀, h₀, rfl⟩ := hentry
    exact ⟨entry₀, h₀, rfl⟩
  · rw [lookup_updateStamp_ne _ hk] at hentry
    exact ⟨entry, hentry, rfl⟩

theorem foldl_evict_keepsValues : ∀ (elems : List (Nat × κ)) (c : Cache κ ν), KeepsValues c (elems.foldl evict c)
  | [], c => ⟨rfl, fun _ entry h => ⟨entry, h, rfl⟩⟩
  | entry :: elems, c => by
    rw [List.foldl_cons]
    refine KeepsValues.trans ?_ (foldl_evict_keepsValues elems (evict c entry))
    refine ⟨rfl, fun k e he => ?_⟩
    by_cases hk : k = entry.2
    · subst hk
      simp [evict, AList.lookup_erase] at he
    · simp only [evict, AList.lookup_erase_ne hk] at he
      exact ⟨e, he, rfl⟩

theorem foldl_evict_clock : ∀ (elems : List (Nat × κ)) (c : Cache κ ν), (elems.foldl evict c).clock = c.clock
  | [], _ => rfl
  | entry :: elems, c => foldl_evict_clock elems (evict c entry)

/-! ## The server never raises -/

section Server

variable (opts : Options)

/-- `prune_cache/1` on a stamped cache succeeds, and what it leaves is stamped. -/
theorem pruneCache_spec {c : Cache κ ν} (hc : Stamped c) :
    ∃ c', pruneCache opts c = some c' ∧ Stamped c' ∧ KeepsValues c c' ∧ c'.clock = c.clock := by
  dsimp only [pruneCache]
  split
  · rename_i hprune
    have hdata : c.data.entries ≠ [] := by
      intro hnil
      simp [hnil] at hprune
    obtain ⟨elems, helems⟩ := Option.isSome_iff_exists.mp (selectOldest_isSome hc hdata (c.data.entries.length - opts.maxEntries + opts.batchPruneSize))
    obtain ⟨hnodup, hentries⟩ := selectOldest_spec helems
    exact ⟨elems.foldl evict c, by simp [helems], foldl_evict_stamped elems hc hnodup hentries,
      foldl_evict_keepsValues elems c, foldl_evict_clock elems c⟩
  · exact ⟨c, rfl, hc, ⟨rfl, fun _ entry h => ⟨entry, h, rfl⟩⟩, rfl⟩

/-- A stamp succeeds where every other entry is stamped, and leaves the cache stamped. -/
theorem touchEntry_spec {c : Cache κ ν} {key : κ} (hc : StampedBut c key) :
    ∃ c', touchEntry opts c key = some c' ∧ Stamped c' ∧ KeepsValues c c' := by
  obtain ⟨c', hprune, hstamped, hkeeps, -⟩ := pruneCache_spec opts (updateTtl_stamped hc)
  exact ⟨c', hprune, hstamped, (updateTtl_keepsValues c key).trans hkeeps⟩

theorem cacheValue_spec {c : Cache κ ν} (hc : Stamped c) (key : κ) (value : ν) :
    ∃ c', cacheValue opts c key value = some c' ∧ Stamped c' ∧
      KeepsValues { c with data := c.data.insert key (value, none) } c' :=
  touchEntry_spec opts (hc.insert_nil key value)

theorem put_spec {c : Cache κ ν} (hc : Stamped c) (key : κ) (value : ν) :
    ∃ c', put opts c key value = some c' ∧ Stamped c' ∧
      KeepsValues { c with data := c.data.insert key (value, none), db := Function.update c.db key (some value) } c' := by
  obtain ⟨c₁, h₁, hstamped₁, hkeeps₁⟩ := cacheValue_spec opts (c := { c with db := Function.update c.db key (some value) })
    ⟨hc.stamped, hc.fresh⟩ key value
  obtain ⟨c₂, h₂, hstamped₂, hkeeps₂⟩ := touchEntry_spec opts (hstamped₁.stampedBut key)
  exact ⟨c₂, by simp [put, h₁, h₂], hstamped₂, hkeeps₁.trans hkeeps₂⟩

theorem serve_spec {c : Cache κ ν} (hc : Stamped c) (msg : Msg κ ν) : ∃ c', serve opts c msg = some c' ∧ Stamped c' := by
  cases msg with
  | put key value =>
    obtain ⟨c', h, hstamped, -⟩ := put_spec opts hc key value
    exact ⟨c', h, hstamped⟩
  | cacheValue key value =>
    obtain ⟨c', h, hstamped, -⟩ := cacheValue_spec opts hc key value
    exact ⟨c', h, hstamped⟩
  | touchEntry key =>
    obtain ⟨c', h, hstamped, -⟩ := touchEntry_spec opts (hc.stampedBut key)
    exact ⟨c', h, hstamped⟩

/-- The server never raises: whatever messages its callers send, in whatever order it gets them,
    it handles each of them, from the tables `init/1` creates on. -/
theorem serve_never_raises (db : κ → Option ν) (msgs : List (Msg κ ν)) :
    ∃ c, msgs.foldlM (serve opts) (Cache.init db) = some c ∧ Stamped c := by
  suffices h : ∀ (msgs : List (Msg κ ν)) (c : Cache κ ν), Stamped c → ∃ c', msgs.foldlM (serve opts) c = some c' ∧ Stamped c' from
    h msgs _ (Stamped.init db)
  intro msgs
  induction msgs with
  | nil => exact fun c hc => ⟨c, rfl, hc⟩
  | cons msg msgs ih =>
    intro c hc
    obtain ⟨c₁, h₁, hstamped₁⟩ := serve_spec opts hc msg
    obtain ⟨c₂, h₂, hstamped₂⟩ := ih c₁ hstamped₁
    exact ⟨c₂, by simp [h₁, h₂], hstamped₂⟩

end Server


/-! ## One operation at a time -/

/-- Every entry holds the database's value. -/
def Coherent (c : Cache κ ν) : Prop := ∀ key entry, c.data.lookup key = some entry → c.db key = some entry.1

theorem Coherent.init (db : κ → Option ν) : Coherent (Cache.init db) := fun _ _ h => by simp [Cache.init] at h

theorem KeepsValues.coherent {c c' : Cache κ ν} (h : KeepsValues c c') (hc : Coherent c) : Coherent c' := by
  intro key entry hentry
  obtain ⟨entry₀, h₀, hvalue⟩ := h.values key entry hentry
  rw [h.db, hc key entry₀ h₀, hvalue]

/-- An entry that holds the database's value keeps the cache coherent. -/
theorem Coherent.insert {c : Cache κ ν} (hc : Coherent c) {key : κ} {value : ν} (hvalue : c.db key = some value)
    (stamp : Option Nat) : Coherent { c with data := c.data.insert key (value, stamp) } := by
  intro k entry hentry
  by_cases hk : k = key
  · subst hk
    rw [AList.lookup_insert] at hentry
    cases hentry
    exact hvalue
  · rw [AList.lookup_insert_ne hk] at hentry
    exact hc k entry hentry

section Server

variable (opts : Options)

/-- On a coherent stamped cache, `get/3` returns what the database holds. -/
theorem get_spec {c : Cache κ ν} (hc : Coherent c) (hs : Stamped c) (key : κ) :
    ∃ c', get opts c key = some (c.db key, c') ∧ Coherent c' ∧ Stamped c' ∧ c'.db = c.db := by
  unfold get
  split
  · -- a hit: the entry holds the database's value, and the stamp keeps it
    rename_i entry hentry
    obtain ⟨c', htouch, hstamped, hkeeps⟩ := touchEntry_spec opts (hs.stampedBut key)
    exact ⟨c', by simp [htouch, hc key entry hentry], hkeeps.coherent hc, hstamped, hkeeps.db⟩
  · -- a miss reads the database and caches what it read
    split
    · rename_i hdb
      exact ⟨c, by simp [hdb], hc, hs, rfl⟩
    · rename_i value hdb
      obtain ⟨c', hcache, hstamped, hkeeps⟩ := cacheValue_spec opts hs key value
      exact ⟨c', by simp [hcache, hdb], hkeeps.coherent (hc.insert hdb none), hstamped, hkeeps.db⟩

/-- On a coherent stamped cache, `put/3` writes the database and leaves the cache coherent. -/
theorem put_coherent {c : Cache κ ν} (hc : Coherent c) (hs : Stamped c) (key : κ) (value : ν) :
    ∃ c', put opts c key value = some c' ∧ Coherent c' ∧ Stamped c' ∧ c'.db = Function.update c.db key (some value) := by
  obtain ⟨c', hput, hstamped, hkeeps⟩ := put_spec opts hs key value
  -- the database and the table are written with the same value
  have hwritten : Coherent { c with data := c.data.insert key (value, none), db := Function.update c.db key (some value) } := by
    intro k entry hentry
    by_cases hk : k = key
    · subst hk
      simp only [AList.lookup_insert, Option.some.injEq] at hentry
      subst hentry
      simp
    · simp only [AList.lookup_insert_ne hk] at hentry
      simp only [Function.update_of_ne hk]
      exact hc k entry hentry
  exact ⟨c', hput, hkeeps.coherent hwritten, hstamped, hkeeps.db⟩

/-- One operation at a time, an operation of the cache is the map's. -/
theorem apply_refines (op : Op κ ν) {c : Cache κ ν} (hc : Coherent c ∧ Stamped c) :
    ∃ c', apply opts op c = some ((mapApply op c.db).1, c') ∧ (Coherent c' ∧ Stamped c') ∧ c'.db = (mapApply op c.db).2 := by
  cases op with
  | put key value =>
    obtain ⟨c', hput, hcoherent, hstamped, hdb⟩ := put_coherent opts hc.1 hc.2 key value
    exact ⟨c', by simp [apply, hput, mapApply], ⟨hcoherent, hstamped⟩, hdb⟩
  | get key =>
    obtain ⟨c', hget, hcoherent, hstamped, hdb⟩ := get_spec opts hc.1 hc.2 key
    exact ⟨c', by simp [apply, hget, mapApply], ⟨hcoherent, hstamped⟩, hdb⟩

/-- Run one operation at a time, from any coherent stamped cache (the tables `init/1` creates
    are one), the cache returns what a plain map in place of the database returns, and leaves
    the database as the map. -/
theorem run_refines_map (ops : List (Op κ ν)) {c : Cache κ ν} (hc : Coherent c ∧ Stamped c) :
    ∃ replies c', run opts ops c = some (replies, c') ∧ Coherent c' ∧ Stamped c' ∧
      Fallible.mapReduce (fun op m => some (mapApply op m)) ops c.db = some (replies, c'.db) := by
  obtain ⟨replies, c', hrun, hc', hspec⟩ :=
    Fallible.mapReduce_simulates (f := apply opts) (g := mapApply) Cache.db _ (fun op _ hc => apply_refines opts op hc) ops hc
  exact ⟨replies, c', hrun, hc'.1, hc'.2, hspec⟩

/-- From the tables `init/1` creates, a put and two gets return what a map would. -/
theorem run_refines_map_from_init :
    (Coherent (Cache.init fun _ : Nat => (none : Option Nat)) ∧ Stamped (Cache.init fun _ : Nat => (none : Option Nat))) ∧
      ∃ replies c', run Options.default [.put 1 7, .get 1, .get 2] (Cache.init fun _ => none) = some (replies, c') ∧
        Coherent c' ∧ Stamped c' ∧
        Fallible.mapReduce (fun op m => some (mapApply op m)) [.put 1 7, .get 1, .get 2] (fun _ => none) = some (replies, c'.db) :=
  ⟨⟨Coherent.init _, Stamped.init _⟩, run_refines_map Options.default _ ⟨Coherent.init _, Stamped.init _⟩⟩

end Server

/-! ## Below `max_entries` -/

section Size

variable (opts : Options)

omit [DecidableEq κ] in
theorem length_le_one {data : DataTable κ ν} {key : κ} (h : ∀ k ∈ data, k = key) : data.entries.length ≤ 1 := by
  have hsub : data.keys ⊆ [key] := fun k hk => List.mem_singleton.mpr (h k (AList.mem_keys.mpr hk))
  simpa [AList.keys, List.keys] using data.keys_nodup.length_le_of_subset hsub

theorem length_insert_of_mem {data : DataTable κ ν} {key : κ} (hkey : key ∈ data) (entry : ν × Option Nat) :
    (data.insert key entry).entries.length = data.entries.length := by
  have hkeys := congrArg List.length (AList.keys_insert (a := key) (b := entry) data)
  simp only [AList.keys, List.keys, List.length_map, List.length_cons] at hkeys
  rw [hkeys, List.length_erase_of_mem (by simpa [AList.keys, List.keys] using AList.mem_keys.mp hkey),
    List.length_map]
  have : 0 < data.entries.length := List.length_pos_of_mem (AList.mem_lookup_iff.mp (Option.get_mem
    (AList.lookup_isSome.mpr hkey)))
  omega

theorem length_updateStamp (data : DataTable κ ν) (key : κ) (uniq : Nat) :
    (updateStamp data key uniq).entries.length = data.entries.length := by
  unfold updateStamp
  split
  · rename_i entry hentry
    exact length_insert_of_mem (AList.lookup_isSome.mp (by simp [hentry])) _
  · rfl

/-- Below `max_entries`, `prune_cache/1` leaves the tables alone. -/
theorem pruneCache_of_le {c : Cache κ ν} (h : c.data.entries.length ≤ opts.maxEntries) : pruneCache opts c = some c := by
  simp [pruneCache, Nat.sub_eq_zero_of_le h]

theorem touchEntry_of_le {c : Cache κ ν} (h : c.data.entries.length ≤ opts.maxEntries) (key : κ) :
    touchEntry opts c key = some (updateTtl c key) := by
  refine pruneCache_of_le opts ?_
  simpa [updateTtl, length_updateStamp, (deleteTtl_data c key).1] using h

theorem updateTtl_clock (c : Cache κ ν) (key : κ) : (updateTtl c key).clock = c.clock + 1 := by
  simp [updateTtl, (deleteTtl_data c key).2.1]

theorem updateTtl_db (c : Cache κ ν) (key : κ) : (updateTtl c key).db = c.db := by
  simp [updateTtl, (deleteTtl_data c key).2.2]

theorem lookup_updateTtl_self (c : Cache κ ν) (key : κ) :
    (updateTtl c key).data.lookup key = (c.data.lookup key).map fun entry => (entry.1, some c.clock) := by
  simp [updateTtl, (deleteTtl_data c key).1, (deleteTtl_data c key).2.1]

/-- The stamp a stamp takes maps to its key. -/
theorem updateTtl_ttl_clock {c : Cache κ ν} (hfresh : ∀ uniq ∈ c.ttl, uniq < c.clock) (key : κ) :
    (updateTtl c key).ttl.lookup c.clock = some key := by
  have hnot : c.clock ∉ (deleteTtl c key).ttl := fun hmem => Nat.lt_irrefl _ (hfresh _ (mem_deleteTtl hmem))
  simp only [updateTtl, (deleteTtl_data c key).2.1, insertNew_of_notMem key hnot, AList.lookup_insert]

/-- Every other stamp is left, but the one the key carried. -/
theorem updateTtl_ttl_ne {c : Cache κ ν} {key : κ} {uniq : Nat} (hclock : uniq ≠ c.clock)
    (hstamp : lookupStamp c.data key ≠ some uniq) : (updateTtl c key).ttl.lookup uniq = c.ttl.lookup uniq := by
  have hdelete : (deleteTtl c key).ttl.lookup uniq = c.ttl.lookup uniq := by
    unfold deleteTtl
    split
    · rfl
    · rename_i stamp hstamp'
      exact AList.lookup_erase_ne fun h => hstamp (h ▸ hstamp')
  simp only [updateTtl, (deleteTtl_data c key).2.1]
  unfold insertNew
  split
  · exact hdelete
  · rw [AList.lookup_insert_ne hclock, hdelete]

end Size

/-! ## Callers and server interleaved -/

/-- The server's tables and its mailbox, oldest message first. -/
structure World (κ ν : Type) where
  cache : Cache κ ν
  mailbox : List (Msg κ ν)

section Interleaved

variable (opts : Options)

/-- A step of one caller or of the server. A caller of `get/3` that misses reads the database
    and sends its call in one step, one schedule of its three. -/
inductive Step : World κ ν → World κ ν → Prop
  | put (w : World κ ν) (key : κ) (value : ν) : Step w ⟨w.cache, w.mailbox ++ [.put key value]⟩
  | getHit (w : World κ ν) (key : κ) (entry : ν × Option Nat) : w.cache.data.lookup key = some entry →
      Step w ⟨w.cache, w.mailbox ++ [.touchEntry key]⟩
  | getMiss (w : World κ ν) (key : κ) (value : ν) : w.cache.data.lookup key = none → w.cache.db key = some value →
      Step w ⟨w.cache, w.mailbox ++ [.cacheValue key value]⟩
  | serve (w : World κ ν) (msg : Msg κ ν) (rest : List (Msg κ ν)) (c : Cache κ ν) : w.mailbox = msg :: rest →
      serve opts w.cache msg = some c → Step w ⟨c, rest⟩

/-- The worlds reachable from the tables `init/1` creates in front of a database. -/
inductive Reach (db : κ → Option ν) : World κ ν → Prop
  | init : Reach db ⟨Cache.init db, []⟩
  | step {w w' : World κ ν} : Reach db w → Step opts w w' → Reach db w'

/-- A `get/3` that misses while a `put/3` of the same key waits in the mailbox reads the old value
    from the database and calls after the put: the server caches the old value over the new one,
    and from then on every hit serves it while the database holds the new value. -/
theorem get_racing_put_caches_stale (hmax : 0 < opts.maxEntries) {db : κ → Option ν} {key : κ} {old : ν}
    (hold : db key = some old) (new : ν) :
    ∃ w, Reach opts db w ∧ w.mailbox = [] ∧ w.cache.db key = some new ∧ ∃ stamp, w.cache.data.lookup key = some (old, stamp) := by
  -- the put is handled first, and leaves only the key in the table
  obtain ⟨c₁, hput, hstamped₁, hkeeps₁⟩ := put_spec opts (Stamped.init db) key new
  have hdb₁ : c₁.db key = some new := by simp [hkeeps₁.db]
  have honly : ∀ k ∈ (c₁.data.insert key (old, none)), k = key := by
    intro k hk
    by_contra hne
    rcases (AList.mem_insert _).mp hk with rfl | hmem
    · exact hne rfl
    · obtain ⟨entry, hentry⟩ := Option.isSome_iff_exists.mp (AList.lookup_isSome.mpr hmem)
      obtain ⟨entry₀, h₀, -⟩ := hkeeps₁.values k entry hentry
      simp only [Cache.init, AList.lookup_insert_ne hne, AList.lookup_empty] at h₀
      cases h₀
  -- then the late call of the get: below `max_entries`, its stamp evicts nothing
  have hcache : cacheValue opts c₁ key old = some (updateTtl { c₁ with data := c₁.data.insert key (old, none) } key) :=
    touchEntry_of_le opts ((length_le_one honly).trans hmax) key
  have hmiss : Step opts ⟨Cache.init db, []⟩ ⟨Cache.init db, [.put key new]⟩ := Step.put _ key new
  refine ⟨⟨updateTtl { c₁ with data := c₁.data.insert key (old, none) } key, []⟩,
    .step (.step (.step (.step .init hmiss) (Step.getMiss _ key old (by simp [Cache.init]) hold))
      (Step.serve _ _ _ c₁ rfl hput)) (Step.serve _ _ _ _ rfl hcache), rfl, ?_, some c₁.clock, ?_⟩
  · rw [updateTtl_db]
    exact hdb₁
  · simp [lookup_updateTtl_self, AList.lookup_insert]

/-- With the default options, a database holding `0` at key `1`, and a put of `5` racing a get. -/
theorem get_racing_put_caches_stale_default :
    0 < Options.default.maxEntries ∧ (fun _ : Nat => (some 0 : Option Nat)) 1 = some 0 ∧
      ∃ w, Reach Options.default (fun _ : Nat => (some 0 : Option Nat)) w ∧ w.mailbox = [] ∧ w.cache.db 1 = some 5 ∧
        ∃ stamp, w.cache.data.lookup 1 = some (0, stamp) :=
  ⟨by decide, rfl, @get_racing_put_caches_stale Nat Nat _ Options.default (by decide) (fun _ => some 0) 1 0 rfl 5⟩

end Interleaved

/-! ## The stamp a `put/3` leaves behind -/

/-- A `put/3` of a key the cache holds, below `max_entries`: `cache_value/3` replaces the entry's
    stamp with `nil` before `update_ttl/3` reads it, so the key's old stamp stays in the TTL
    table, still naming the key, beside the new one. -/
theorem put_cached_keeps_old_stamp (opts : Options) {c : Cache κ ν} (hc : Stamped c) {key : κ} {old value : ν}
    {stamp : Nat} (hkey : c.data.lookup key = some (old, some stamp)) (hsize : c.data.entries.length ≤ opts.maxEntries) :
    ∃ c', put opts c key value = some c' ∧ c'.ttl.lookup stamp = some key ∧
      ∃ stamp', stamp' ≠ stamp ∧ c'.data.lookup key = some (value, some stamp') ∧ c'.ttl.lookup stamp' = some key := by
  have httl : c.ttl.lookup stamp = some key := by
    obtain ⟨uniq, huniq, httl⟩ := hc.stamped key _ hkey
    rwa [Option.some.inj huniq]
  have hlt : stamp < c.clock := hc.fresh stamp (AList.lookup_isSome.mp (by simp [httl]))
  have hmem : key ∈ c.data := AList.lookup_isSome.mp (by simp [hkey])
  -- `cache_value/3`: the insert, then a stamp that cannot see the old one
  let c₀ : Cache κ ν := { c with data := c.data.insert key (value, none), db := Function.update c.db key (some value) }
  have hsize₀ : c₀.data.entries.length ≤ opts.maxEntries := by
    show (c.data.insert key (value, none)).entries.length ≤ opts.maxEntries
    rw [length_insert_of_mem hmem]
    exact hsize
  have hsize₁ : (updateTtl c₀ key).data.entries.length ≤ opts.maxEntries := by
    simpa [updateTtl, length_updateStamp, (deleteTtl_data c₀ key).1] using hsize₀
  have hput : put opts c key value = some (updateTtl (updateTtl c₀ key) key) := by
    simp only [put, cacheValue]
    rw [touchEntry_of_le opts hsize₀]
    exact touchEntry_of_le opts hsize₁ key
  have hnone : lookupStamp c₀.data key = none := by simp [c₀, lookupStamp, AList.lookup_insert]
  have hclock₁ : (updateTtl c₀ key).clock = c.clock + 1 := updateTtl_clock c₀ key
  have hlookup₁ : lookupStamp (updateTtl c₀ key).data key = some c.clock := by
    simp [lookupStamp, lookup_updateTtl_self, c₀, AList.lookup_insert]
  refine ⟨_, hput, ?_, c.clock + 1, by omega, ?_, ?_⟩
  · -- the old stamp survives both stamps
    have hne₁ : stamp ≠ (updateTtl c₀ key).clock := by omega
    have hne₂ : lookupStamp (updateTtl c₀ key).data key ≠ some stamp := by
      rw [hlookup₁, ne_eq, Option.some.injEq]
      omega
    have hne₃ : stamp ≠ c₀.clock := Nat.ne_of_lt hlt
    rw [updateTtl_ttl_ne hne₁ hne₂, updateTtl_ttl_ne hne₃ (by simp [hnone])]
    exact httl
  · simp [lookup_updateTtl_self, hclock₁, c₀, AList.lookup_insert]
  · rw [← hclock₁]
    exact updateTtl_ttl_clock (updateTtl_stamped (Stamped.insert_nil (c := { c with db := Function.update c.db key (some value) })
      ⟨hc.stamped, hc.fresh⟩ key value)).fresh key

/-- The cache after a put of `7` at key `1` from `init/1`'s tables: the entry stamped `1`. -/
def putOnce : Cache Nat Nat :=
  ⟨(∅ : DataTable Nat Nat).insert 1 (7, some 1), (∅ : TtlTable Nat).insert 1 1, 2, fun k => if k = 1 then some 7 else none⟩

/-- Putting `8` at key `1` again leaves the stamp `1` naming the key. -/
theorem put_cached_keeps_old_stamp_putOnce :
    Stamped putOnce ∧ putOnce.data.lookup 1 = some (7, some 1) ∧ putOnce.data.entries.length ≤ Options.default.maxEntries ∧
      ∃ c', put Options.default putOnce 1 8 = some c' ∧ c'.ttl.lookup 1 = some 1 ∧
        ∃ stamp', stamp' ≠ 1 ∧ c'.data.lookup 1 = some (8, some stamp') ∧ c'.ttl.lookup stamp' = some 1 := by
  have hstamped : Stamped putOnce := by
    refine ⟨fun k entry hentry => ?_, fun uniq huniq => ?_⟩
    · by_cases hk : k = 1
      · subst hk
        simp only [putOnce, AList.lookup_insert, Option.some.injEq] at hentry
        subst hentry
        exact ⟨1, rfl, by simp only [putOnce, AList.lookup_insert]⟩
      · simp only [putOnce, AList.lookup_insert_ne hk, AList.lookup_empty, reduceCtorEq] at hentry
    · simp only [putOnce, AList.mem_insert, AList.notMem_empty, or_false] at huniq
      subst huniq
      decide
  have hkey : putOnce.data.lookup 1 = some (7, some 1) := by simp only [putOnce, AList.lookup_insert]
  exact ⟨hstamped, hkey, by decide, put_cached_keeps_old_stamp Options.default hstamped hkey (by decide)⟩

end LambdaEthereumConsensus.Store.LRUCache
