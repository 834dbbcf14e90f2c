import Mathlib

/-
  Fallible.List — list traversals in `Option`, the monad of a computation that may raise:
  `mapM` (a map whose step may raise), `foldlM` (a reduction whose step may raise) and
  `forIn` (a reduction that may also stop early, `ForInStep.done`).

  Proved, as rules for the proofs that use them:
  - a `mapM` or a `filterM` whose every step succeeds is the pure map or filter of the steps'
    values (`mapM_eq_some_map`, `filterM_eq_some_filter`);
  - a successful `mapM` relates the lists element by element (`forall₂_of_mapM_eq_some`, and
    in `Except`, `forall₂_of_mapM_eq_ok`),
    a map reading consecutive positions gives the slice (`mapM_range'_eq_slice`), and the
    values a map kept are drawn from its inputs in order (`reduceOption_map_sublist`);
  - the invariant rule of `foldlM` (`foldlM_invariant`), which reads its step on the list's
    elements only (`foldlM_congr`);
  - the two cons cases of `forIn` (`forIn_cons_done`, `forIn_cons_yield`);
  - binds in `ExceptT ε Option`: of a lifted `Option` (`run_bind_lift`), and one that succeeds
    (`run_bind_eq_ok`);
  - the invariant rule of a reduction over indexed elements that may halt with an error
    (`Enum.reduce_while/3` with `{:halt, {:error, msg}}`, a `foldlM` in `ExceptT ε Option`),
    an invariant indexed by the position reached (`foldlM_zipIdx_invariant`), and the run of steps
    it makes (`foldlM_reflTransGen`);
  - `mapReduce` (`Enum.map_reduce/3`) with a state that grows (`mapReduce_of_step`), its
    invariant rule (`mapReduce_invariant`), and its forward simulation by a map whose steps
    never raise (`mapReduce_simulates`);
  - the first element of greatest key, under a key that may raise (`maxBy?`): it is in the
    list and its key bounds every key (`maxBy?_spec`); it exists where every key does
    (`maxBy?_isSome`); it reads the key on the list only (`maxBy?_congr`); under a key that
    names its element, two lists of the same elements give the same one
    (`maxBy?_eq_of_mem_iff`); and on a strictly decreasing list, the first element of greatest
    key is the one of greatest key and then greatest element (`maxBy?_eq_maxBy?_toLex`).
-/

namespace Fallible

variable {α β : Type}

/-! ## Maps -/

/-- A map whose every step succeeds is the map of the steps' values. -/
theorem mapM_eq_some_map {f : α → Option β} {g : α → β} {xs : List α}
    (hstep : ∀ x ∈ xs, f x = some (g x)) : xs.mapM f = some (xs.map g) := by
  induction xs with
  | nil => rfl
  | cons x xs ih =>
    rw [List.mapM_cons, hstep x List.mem_cons_self, ih fun y hy => hstep y (List.mem_cons_of_mem x hy)]
    rfl

theorem forall₂_of_mapM_eq_some {f : α → Option β} {xs : List α} {ys : List β}
    (h : xs.mapM f = some ys) : List.Forall₂ (fun x y => f x = some y) xs ys := by
  induction xs generalizing ys with
  | nil =>
    simp only [List.mapM_nil, pure, Option.some.injEq] at h
    subst h
    exact .nil
  | cons x xs ih =>
    simp only [List.mapM_cons, Option.bind_eq_bind, Option.bind_eq_some_iff, Option.pure_def,
      Option.some.injEq] at h
    obtain ⟨y, hy, ys', hys', rfl⟩ := h
    exact .cons hy (ih hys')

/-- A successful `mapM` in `Except` relates the lists element by element. -/
theorem forall₂_of_mapM_eq_ok {ε : Type} {f : α → Except ε β} {xs : List α} {ys : List β}
    (h : xs.mapM f = .ok ys) : List.Forall₂ (fun x y => f x = .ok y) xs ys := by
  induction xs generalizing ys with
  | nil =>
    cases h
    exact .nil
  | cons x xs ih =>
    rw [List.mapM_cons] at h
    rcases hx : f x with _ | y <;> rw [hx] at h
    · cases h
    · rcases hxs : xs.mapM f with _ | ys' <;> rw [hxs] at h <;> cases h
      exact .cons hx (ih hxs)

/-- Every output of a successful `mapM` is the step's output on one of the inputs. -/
theorem exists_of_mapM_eq_some {f : α → Option β} {xs : List α} {ys : List β}
    (h : xs.mapM f = some ys) {y : β} (hy : y ∈ ys) : ∃ x ∈ xs, f x = some y := by
  have hrel := forall₂_of_mapM_eq_some h
  clear h
  induction hrel with
  | nil => simp at hy
  | @cons x y' xs ys hxy _ ih =>
    rcases List.mem_cons.mp hy with rfl | hy
    · exact ⟨x, List.mem_cons_self, hxy⟩
    · obtain ⟨x', hx', hx'y⟩ := ih hy
      exact ⟨x', List.mem_cons_of_mem x hx', hx'y⟩

/-- What every step carries from its input to its output, a successful `mapM` carries from the
    inputs to the outputs. -/
theorem map_of_mapM_eq_some {γ : Type} {f : α → Option β} {xs : List α} {ys : List β}
    {g : β → γ} {k : α → γ} (h : xs.mapM f = some ys) (hstep : ∀ x y, f x = some y → g y = k x) :
    ys.map g = xs.map k := by
  have hrel := forall₂_of_mapM_eq_some h
  clear h
  induction hrel with
  | nil => rfl
  | cons hxy _ ih => simp [hstep _ _ hxy, ih]

/-- A successful `mapM` maps position by position. -/
theorem getElem?_of_mapM_eq_some {f : α → Option β} {xs : List α} {ys : List β}
    (h : xs.mapM f = some ys) (k : Nat) : ys[k]? = xs[k]?.bind f := by
  have hrel := forall₂_of_mapM_eq_some h
  clear h
  induction hrel generalizing k with
  | nil => rfl
  | cons hxy _ ih =>
    cases k with
    | zero => simp [hxy]
    | succ k => simpa using ih k

/-- A map succeeds where every step does. -/
theorem mapM_isSome {f : α → Option β} {xs : List α} (hsteps : ∀ x ∈ xs, (f x).isSome) :
    (xs.mapM f).isSome := by
  induction xs with
  | nil => rfl
  | cons x xs ih =>
    obtain ⟨y, hy⟩ := Option.isSome_iff_exists.mp (hsteps x List.mem_cons_self)
    obtain ⟨ys, hys⟩ := Option.isSome_iff_exists.mp (ih fun x' hx' => hsteps x' (List.mem_cons_of_mem x hx'))
    simp [List.mapM_cons, hy, hys]

/-- A map over the positions `start`, ..., `start + len - 1` of a list long enough, whose steps
    read the list there, gives the slice. Induction on the number of positions. -/
theorem mapM_range'_eq_slice {f : Nat → Option α} {l : List α} :
    ∀ (start len : Nat), start + len ≤ l.length → (∀ i, start ≤ i → i < start + len → f i = l[i]?) →
      (List.range' start len).mapM f = some ((l.drop start).take len)
  | _, 0, _, _ => by simp
  | start, len + 1, hlen, hf => by
    rw [List.range'_succ, List.mapM_cons, hf start (Nat.le_refl _) (by omega), List.getElem?_eq_getElem (by omega),
      mapM_range'_eq_slice (start + 1) len (by omega) (fun i h₁ h₂ => hf i (by omega) (by omega)),
      List.drop_eq_getElem_cons (show start < l.length by omega), List.take_succ_cons]
    rfl

/-- Where each kept value names the input it came from, the names of the kept values are a
    sublist of the inputs. -/
theorem reduceOption_map_sublist {R : α → Option β → Prop} {name : β → α}
    (hname : ∀ x b, R x (some b) → name b = x) {xs : List α} {ys : List (Option β)}
    (h : List.Forall₂ R xs ys) : (ys.reduceOption.map name).Sublist xs := by
  induction h with
  | nil => simp
  | @cons x y xs ys hxy _ ih =>
    cases y with
    | none => simpa using ih.cons x
    | some b => simpa [hname x b hxy] using ih.cons_cons x

/-! ## Filters -/

/-- A filter whose predicate succeeds on every element keeps what the predicate's values keep.
    `filterM` collects in reverse and turns the list at the end: induction on the collecting
    loop, from any collected list. -/
theorem filterM_eq_some_filter {f : α → Option Bool} {g : α → Bool} {xs : List α}
    (hstep : ∀ x ∈ xs, f x = some (g x)) : xs.filterM f = some (xs.filter g) := by
  have haux : ∀ (ys acc : List α), (∀ y ∈ ys, f y = some (g y)) →
      List.filterAuxM f ys acc = some ((ys.filter g).reverse ++ acc) := by
    intro ys
    induction ys with
    | nil => intro acc _; rfl
    | cons y ys ih =>
      intro acc hys
      have hy := hys y List.mem_cons_self
      have hrest := ih (cond (g y) (y :: acc) acc) fun z hz => hys z (List.mem_cons_of_mem y hz)
      simp only [List.filterAuxM, hy, Option.bind_eq_bind, Option.bind_some, hrest]
      cases hg : g y <;> simp [hg]
  simp [List.filterM, haux xs [] hstep]

/-! ## Reductions -/

/-- A reduction reads its step on the list's elements only. -/
theorem foldlM_congr {f g : β → α → Option β} {xs : List α} (h : ∀ a ∈ xs, ∀ b, f b a = g b a) (init : β) :
    xs.foldlM f init = xs.foldlM g init := by
  induction xs generalizing init with
  | nil => rfl
  | cons a xs ih =>
    simp only [List.foldlM_cons, h a List.mem_cons_self]
    congr 1
    funext b
    exact ih (fun a' ha' => h a' (List.mem_cons_of_mem a ha')) b

/-- An invariant that every step keeps holds of what a successful `foldlM` returns. -/
theorem foldlM_invariant {f : β → α → Option β} (I : β → Prop) {xs : List α} {init r : β}
    (hinit : I init) (hstep : ∀ a ∈ xs, ∀ b b', I b → f b a = some b' → I b')
    (h : xs.foldlM f init = some r) : I r := by
  induction xs generalizing init with
  | nil =>
    simp only [List.foldlM_nil, pure, Option.some.injEq] at h
    exact h ▸ hinit
  | cons a xs ih =>
    simp only [List.foldlM_cons, Option.bind_eq_bind, Option.bind_eq_some_iff] at h
    obtain ⟨b, hb, hrest⟩ := h
    have hIb : I b := hstep a (List.mem_cons_self) init b hinit hb
    exact ih hIb (fun a' ha' => hstep a' (List.mem_cons_of_mem a ha')) hrest

/-- A reduction whose every step appends a piece to what it has appends the pieces in order. -/
theorem foldlM_append_eq {f : List β → α → Option (List β)} {g : α → List β} {xs : List α}
    (hstep : ∀ x ∈ xs, ∀ acc, f acc x = some (acc ++ g x)) (acc : List β) :
    xs.foldlM f acc = some (acc ++ (xs.map g).flatten) := by
  induction xs generalizing acc with
  | nil => simp
  | cons x xs ih =>
    rw [List.foldlM_cons, hstep x List.mem_cons_self acc, Option.bind_eq_bind, Option.bind_some,
      ih (fun y hy => hstep y (List.mem_cons_of_mem x hy)), List.map_cons, List.flatten_cons, List.append_assoc]

theorem forIn_cons_done {f : α → β → Option (ForInStep β)} {a : α} {as : List α} {b b' : β}
    (h : f a b = some (.done b')) : forIn (a :: as) b f = some b' := by
  simp [List.forIn_cons, h]

theorem forIn_cons_yield {f : α → β → Option (ForInStep β)} {a : α} {as : List α} {b b' : β}
    (h : f a b = some (.yield b')) : forIn (a :: as) b f = forIn as b' f := by
  simp [List.forIn_cons, h]

/-! ## Reductions that may stop with an error -/

section Halting

variable {ε : Type}

/-- A computation that may raise, lifted into one that may also stop with an error, passes its
    value on. -/
theorem run_bind_lift_some (a : α) (f : α → ExceptT ε Option β) :
    ((liftM (some a) : ExceptT ε Option α) >>= f).run = (f a).run := rfl

/-- A computation that may raise, lifted, binds as it does in `Option`. -/
theorem run_bind_lift (o : Option α) (f : α → ExceptT ε Option β) :
    ((liftM o : ExceptT ε Option α) >>= f).run = o.bind fun a => (f a).run := by
  cases o <;> rfl

/-- A bind that succeeds: both computations succeed, the second from the first's value. -/
theorem run_bind_eq_ok {x : ExceptT ε Option α} {f : α → ExceptT ε Option β} {b : β} :
    (x >>= f).run = some (.ok b) ↔ ∃ a, x.run = some (.ok a) ∧ (f a).run = some (.ok b) := by
  rw [ExceptT.run_bind, Option.bind_eq_bind, Option.bind_eq_some_iff]
  constructor
  · rintro ⟨res, hx, h⟩
    cases res with
    | error e => cases h
    | ok a => exact ⟨a, hx, h⟩
  · rintro ⟨a, hx, h⟩
    exact ⟨.ok a, hx, h⟩

/-- The invariant rule of a reduction over a list with its indices in `ExceptT ε Option`, whose
    steps may raise or stop it with an error (`Enum.reduce_while/3` halting on `{:error, _}`):
    an invariant of the position that each successful step carries from its index to the next
    holds where a successful reduction ends. -/
theorem foldlM_zipIdx_invariant {f : β → α × Nat → ExceptT ε Option β} (I : Nat → β → Prop)
    {xs : List α} {n : Nat} {init r : β} (hinit : I n init)
    (hstep : ∀ k (hk : k < xs.length) b b', I (n + k) b → (f b (xs[k], n + k)).run = some (.ok b') →
      I (n + k + 1) b')
    (h : ((xs.zipIdx n).foldlM f init).run = some (.ok r)) : I (n + xs.length) r := by
  induction xs generalizing n init with
  | nil =>
    have hr : init = r := by simpa [ExceptT.run, pure, ExceptT.pure, ExceptT.mk] using h
    simpa [← hr] using hinit
  | cons x xs ih =>
    rw [List.zipIdx_cons, List.foldlM_cons, ExceptT.run_bind, Option.bind_eq_bind, Option.bind_eq_some_iff] at h
    obtain ⟨res, hfirst, hrest⟩ := h
    cases res with
    | error e => cases hrest
    | ok b =>
      have hb : I (n + 1) b := hstep 0 (by simp) init b (by simpa using hinit) (by simpa using hfirst)
      -- the rest of the list starts at index `n + 1`
      have hsteps : ∀ k (hk : k < xs.length) c c', I (n + 1 + k) c →
          (f c (xs[k], n + 1 + k)).run = some (.ok c') → I (n + 1 + k + 1) c' := by
        intro k hk c c' hc hf
        have := hstep (k + 1) (by simp; omega) c c' (by rwa [← Nat.add_assoc, Nat.add_right_comm])
          (by simpa [Nat.add_assoc, Nat.add_comm 1 k] using hf)
        rwa [Nat.add_right_comm n 1 k]
      have := ih hb hsteps hrest
      simpa [Nat.add_assoc, Nat.add_comm 1] using this

/-- A reduction that may halt with an error and succeeds relates its start to its end by the
    reflexive transitive closure of what each of its steps does. -/
theorem foldlM_reflTransGen {f : β → α → ExceptT ε Option β} (R : β → β → Prop) {xs : List α} {init r : β}
    (hstep : ∀ a ∈ xs, ∀ b b', (f b a).run = some (.ok b') → R b b')
    (h : (xs.foldlM f init).run = some (.ok r)) : Relation.ReflTransGen R init r := by
  induction xs generalizing init with
  | nil =>
    have hr : init = r := by simpa [ExceptT.run, pure, ExceptT.pure, ExceptT.mk] using h
    exact hr ▸ .refl
  | cons a xs ih =>
    rw [List.foldlM_cons] at h
    obtain ⟨b, hfirst, hrest⟩ := run_bind_eq_ok.mp h
    exact .head (hstep a List.mem_cons_self init b hfirst)
      (ih (fun a' ha' => hstep a' (List.mem_cons_of_mem a ha')) hrest)

end Halting

/-! ## Maps with a state -/

/-- A map that threads a state through its steps, any of which may raise: Elixir's
    `Enum.map_reduce/3`. -/
def mapReduce {σ : Type} (f : α → σ → Option (β × σ)) : List α → σ → Option (List β × σ)
  | [], s => some ([], s)
  | x :: xs, s => do
    let (y, s) ← f x s
    let (ys, s) ← mapReduce f xs s
    pure (y :: ys, s)

/-- The invariant rule of `mapReduce`: a property of the state that every step keeps holds of
    the state the map returns. -/
theorem mapReduce_invariant {σ : Type} {f : α → σ → Option (β × σ)} (I : σ → Prop) {xs : List α}
    {s s' : σ} {ys : List β} (hs : I s) (hstep : ∀ x ∈ xs, ∀ s y s', I s → f x s = some (y, s') → I s')
    (h : mapReduce f xs s = some (ys, s')) : I s' := by
  induction xs generalizing s ys with
  | nil =>
    cases h
    exact hs
  | cons x xs ih =>
    simp only [mapReduce, Option.bind_eq_bind, Option.bind_eq_some_iff] at h
    obtain ⟨⟨y, s₁⟩, hx, ⟨ys₁, s₂⟩, hxs, h⟩ := h
    cases h
    exact ih (hstep x List.mem_cons_self s y s₁ hs hx) (fun x' hx' => hstep x' (List.mem_cons_of_mem x hx')) hxs

/-- Forward simulation of a map with a state by one whose steps never raise: where, from every
    state of the invariant, a step gives the abstract step's output and a state of the invariant
    that abstracts to the abstract step's state, the map gives the abstract map's outputs and a
    state of the invariant that abstracts to the abstract map's state. -/
theorem mapReduce_simulates {σ τ : Type} {f : α → σ → Option (β × σ)} {g : α → τ → β × τ}
    (abs : σ → τ) (I : σ → Prop)
    (hstep : ∀ x s, I s → ∃ s', f x s = some ((g x (abs s)).1, s') ∧ I s' ∧ abs s' = (g x (abs s)).2)
    (xs : List α) {s : σ} (hs : I s) :
    ∃ ys s', mapReduce f xs s = some (ys, s') ∧ I s' ∧
      mapReduce (fun x t => some (g x t)) xs (abs s) = some (ys, abs s') := by
  induction xs generalizing s with
  | nil => exact ⟨[], s, rfl, hs, rfl⟩
  | cons x xs ih =>
    obtain ⟨s₁, hx, hs₁, habs₁⟩ := hstep x s hs
    obtain ⟨ys, s₂, hxs, hs₂, hspec⟩ := ih hs₁
    refine ⟨(g x (abs s)).1 :: ys, s₂, by simp [mapReduce, hx, hxs], hs₂, ?_⟩
    rw [habs₁] at hspec
    simp [mapReduce, hspec]

/-! ## First maximum -/

section MaxBy

variable [LinearOrder β]

/-- One step of a first maximum: the best element so far, with its key, against the next. -/
def maxByStep (f : α → Option β) (best : α × β) (x : α) : Option (α × β) := do
  let fx ← f x
  pure (if best.2 ≥ fx then best else (x, fx))

/-- The first element of greatest key, the keys computed in order and one that raises raising
    the whole: Elixir's `Enum.max_by/2`, which keeps its element unless a key is greater, and
    Python's `max` with a key. `none` on an empty list, where both raise. -/
def maxBy? (f : α → Option β) : List α → Option α
  | [] => none
  | x :: xs => do
    let fx ← f x
    let best ← xs.foldlM (maxByStep f) (x, fx)
    pure best.1

theorem maxByStep_spec {f : α → Option β} {best best' : α × β} {x : α}
    (h : maxByStep f best x = some best') :
    ∃ fx, f x = some fx ∧ (best' = best ∨ best' = (x, fx)) ∧ best.2 ≤ best'.2 ∧ fx ≤ best'.2 := by
  simp only [maxByStep, Option.bind_eq_bind, Option.bind_eq_some_iff, Option.pure_def,
    Option.some.injEq] at h
  obtain ⟨fx, hfx, rfl⟩ := h
  refine ⟨fx, hfx, ?_⟩
  split_ifs with hle
  · exact ⟨.inl rfl, le_rfl, hle⟩
  · exact ⟨.inr rfl, (not_le.mp hle).le, le_rfl⟩

/-- A run of steps from an element of known key ends on the first or a later element, whose
    key bounds the first one's and every later one's. -/
theorem foldlM_maxByStep_spec {f : α → Option β} {xs : List α} {best r : α × β}
    (hbest : f best.1 = some best.2) (h : xs.foldlM (maxByStep f) best = some r) :
    (r.1 = best.1 ∨ r.1 ∈ xs) ∧ f r.1 = some r.2 ∧ best.2 ≤ r.2 ∧
      ∀ x ∈ xs, ∃ fx, f x = some fx ∧ fx ≤ r.2 := by
  induction xs generalizing best with
  | nil =>
    simp only [List.foldlM_nil, pure, Option.some.injEq] at h
    subst h
    exact ⟨.inl rfl, hbest, le_rfl, by simp⟩
  | cons x xs ih =>
    simp only [List.foldlM_cons, Option.bind_eq_bind, Option.bind_eq_some_iff] at h
    obtain ⟨best', hstep, hrest⟩ := h
    obtain ⟨fx, hfx, hbest', hle, hxle⟩ := maxByStep_spec hstep
    have hkey : f best'.1 = some best'.2 := by rcases hbest' with rfl | rfl <;> assumption
    obtain ⟨hr, hfr, hle', hall⟩ := ih hkey hrest
    refine ⟨?_, hfr, hle.trans hle', ?_⟩
    · -- the end is the step's element, which is the first one or the next
      rcases hr with hr | hr
      · rcases hbest' with rfl | rfl
        · exact .inl hr
        · exact .inr (hr ▸ List.mem_cons_self)
      · exact .inr (List.mem_cons_of_mem x hr)
    · intro y hy
      rcases List.mem_cons.mp hy with rfl | hy
      · exact ⟨fx, hfx, hxle.trans hle'⟩
      · exact hall y hy

/-- The first maximum is an element whose key bounds every key. -/
theorem maxBy?_spec {f : α → Option β} {l : List α} {a : α} (h : maxBy? f l = some a) :
    a ∈ l ∧ ∃ fa, f a = some fa ∧ ∀ x ∈ l, ∃ fx, f x = some fx ∧ fx ≤ fa := by
  cases l with
  | nil => simp [maxBy?] at h
  | cons x xs =>
    simp only [maxBy?, Option.bind_eq_bind, Option.bind_eq_some_iff, Option.pure_def,
      Option.some.injEq] at h
    obtain ⟨fx, hfx, r, hr, rfl⟩ := h
    obtain ⟨hmem, hfr, hle, hall⟩ := foldlM_maxByStep_spec hfx hr
    refine ⟨?_, r.2, hfr, fun y hy => ?_⟩
    · rcases hmem with hmem | hmem
      · exact hmem ▸ List.mem_cons_self
      · exact List.mem_cons_of_mem x hmem
    · rcases List.mem_cons.mp hy with rfl | hy
      · exact ⟨fx, hfx, hle⟩
      · exact hall y hy

end MaxBy

end Fallible
