import LambdaEthereumConsensus.ForkChoice.HeadRefinement

/-
  LambdaEthereumConsensus.ForkChoice.HeadDescent — the head `get_head/1` returns descends
  from the justified block, on every store.

  `compute_head/4` reads the kept blocks as `(root, parent_root)` pairs and moves from a root
  to one of its children among them, so the head it returns is linked to the root it starts
  from by pairs (`computeHead_descends`). The pairs are stored blocks and their parents: the
  blocks `filter_block_tree/4` keeps are the block it is given or the children
  `Store.get_children/2` reads from the database (`filterBlockTree_keeps_stored`). So the head
  is the justified block or a block descending from it in the database (`getHead_descends`).
  Nothing is assumed of the store: the tree cache only decides which children are visited,
  their parents are read from the database. On the fork at genesis, the code's head is the
  child `3` (`getHead_fork`).
-/

namespace LambdaEthereumConsensus.ForkChoice

open LambdaEthereumConsensus.StateTransition

/-- `child` is a stored block whose parent is `parent`. -/
def BlockDb.IsChild (db : BlockDb) (child parent : Root) : Prop :=
  ∃ block, db.getBlock child = some block ∧ block.parentRoot = parent

namespace Head

variable (env : Env) (store : Store)

/-! ## The walk to the head -/

theorem mem_of_mem_pairChildren {pairs : List (Root × Root)} {currentRoot root : Root}
    (h : root ∈ pairChildren pairs currentRoot) : (root, currentRoot) ∈ pairs := by
  simp only [pairChildren, List.mem_map, List.mem_filter, decide_eq_true_eq] at h
  obtain ⟨⟨child, parent⟩, ⟨hpair, hparent⟩, rfl⟩ := h
  subst hparent
  exact hpair

/-- `compute_head/4` goes from a root to one of its children among the pairs, so the head is
    linked to the root by pairs; induction on the fuel. -/
theorem computeHead_descends {pairs : List (Root × Root)} {state : BeaconState} (fuel : Nat) :
    ∀ {currentRoot head : Root}, computeHead env store pairs state fuel currentRoot = some head →
      Relation.ReflTransGen (fun child parent => (child, parent) ∈ pairs) head currentRoot := by
  induction fuel with
  | zero => intro _ _ h; cases h
  | succ fuel ih =>
    intro currentRoot head h
    rw [computeHead_succ] at h
    split at h
    · cases h
      exact .refl
    · rename_i onlyChild honly
      have hchild : onlyChild ∈ pairChildren pairs currentRoot := by
        rw [honly]
        exact List.mem_singleton_self onlyChild
      exact (ih h).tail (mem_of_mem_pairChildren hchild)
    · -- the best child is one of the children, sorted
      simp only [Option.bind_eq_bind, Option.bind_eq_some_iff] at h
      obtain ⟨best, hbest, h⟩ := h
      have hchild := (List.mergeSort_perm _ _).mem_iff.mp (Fallible.maxBy?_spec hbest).1
      exact (ih h).tail (mem_of_mem_pairChildren hchild)

/-! ## The kept blocks -/

theorem filterLeafBlock_keeps_stored {blockRoot : Root} {block : BeaconBlock} {blocks blocks' : Blocks}
    {viable : Bool} (hblocks : StoredBlocks env.db blocks) (hblock : env.db.getBlock blockRoot = some block)
    (h : filterLeafBlock env store blockRoot block blocks = some (viable, blocks')) :
    StoredBlocks env.db blocks' := by
  simp only [filterLeafBlock, Option.bind_eq_bind, Option.bind_eq_some_iff, Option.pure_def] at h
  obtain ⟨_, -, _, -, _, -, _, -, h⟩ := h
  split at h
  · cases h
    exact hblocks.insert hblock
  · cases h
    exact hblocks

/-- The blocks `filter_block_tree/4` keeps are stored: the block it is given, or blocks of the
    subtrees of the children the database gives; induction on the fuel. -/
theorem filterBlockTree_keeps_stored (fuel : Nat) :
    ∀ {blockRoot : Root} {block : BeaconBlock} {blocks blocks' : Blocks} {viable : Bool},
      StoredBlocks env.db blocks → env.db.getBlock blockRoot = some block →
      filterBlockTree env store fuel blockRoot block blocks = some (viable, blocks') →
      StoredBlocks env.db blocks' := by
  induction fuel with
  | zero => intro _ _ _ _ _ _ _ h; cases h
  | succ fuel ih =>
    intro blockRoot block blocks blocks' viable hblocks hblock h
    simp only [filterBlockTree, Option.bind_eq_bind, Option.bind_eq_some_iff, Option.pure_def] at h
    obtain ⟨children, hchildren, ⟨results, newBlocks⟩, hreduce, h⟩ := h
    have hnew : StoredBlocks env.db newBlocks :=
      Fallible.mapReduce_invariant (StoredBlocks env.db) hblocks
        (fun child hchild acc _ acc' hacc hstep => ih hacc (getChildren_stored env store hchildren child hchild) hstep)
        hreduce
    split at h
    · cases h
      exact hnew.insert hblock
    · split at h
      · cases h
        exact hnew
      · exact filterLeafBlock_keeps_stored env store hblocks hblock h

/-- The pairs `get_filtered_block_tree/1` returns are stored blocks and their parents. -/
theorem getFilteredBlockTree_isChild {pairs : List (Root × Root)}
    (h : getFilteredBlockTree env store = some pairs) : ∀ pair ∈ pairs, env.db.IsChild pair.1 pair.2 := by
  simp only [getFilteredBlockTree, Option.bind_eq_bind, Option.bind_eq_some_iff, Option.pure_def,
    Option.some.injEq] at h
  obtain ⟨block, hblock, ⟨viable, blocks⟩, hfilter, rfl⟩ := h
  have hempty : StoredBlocks env.db ∅ := fun _ _ h => by simp at h
  have hstored := filterBlockTree_keeps_stored env store _ hempty hblock hfilter
  intro pair hpair
  obtain ⟨entry, hentry, rfl⟩ := List.mem_map.mp hpair
  exact ⟨entry.2, hstored _ _ (AList.mem_lookup_iff.mpr hentry), rfl⟩

/-! ## The head -/

/-- The head `get_head/1` returns is the justified block or descends from it in the block
    database. -/
theorem getHead_descends {head : Root} (h : getHead env store = some head) :
    Relation.ReflTransGen env.db.IsChild head store.justifiedCheckpoint.root := by
  simp only [getHead, Option.bind_eq_bind, Option.bind_eq_some_iff] at h
  obtain ⟨pairs, hpairs, ⟨_, justifiedState⟩, -, state, -, h⟩ := h
  -- every pair the walk follows is a stored block and its parent
  exact Relation.ReflTransGen.mono (fun child parent hpair =>
    getFilteredBlockTree_isChild env store hpairs (child, parent) hpair) _ _ (computeHead_descends env store _ h)

/-- On the fork at genesis (`forkStore`), run as the code runs: the two children are kept,
    sorted `[3, 2]`, and weigh alike, so the head is `3`. -/
theorem getHead_fork : getHead forkEnv forkStore = some 3 := by
  have hleaf : ∀ root, root = 2 ∨ root = 3 → ∀ fuel blocks, fuel ≠ 0 →
      filterBlockTree forkEnv forkStore fuel root ⟨1, 1⟩ blocks = some (true, blocks.insert root ⟨1, 1⟩) := by
    intro root hroot fuel blocks hfuel
    obtain ⟨fuel, rfl⟩ := Nat.exists_eq_succ_of_ne_zero hfuel
    have hchildren : Store.getChildren forkEnv forkStore root = some [] := by
      rcases hroot with rfl | rfl <;> rfl
    rw [filterBlockTree_of_leaf forkEnv forkStore hchildren,
      filterLeafBlock_of_spec forkEnv forkStore (fork_leafViable hroot)]
    rfl
  have hfiltered : getFilteredBlockTree forkEnv forkStore = some [(1, 0), (2, 1), (3, 1)] := by
    have hchildren : Store.getChildren forkEnv forkStore 1 = some [(3, ⟨1, 1⟩), (2, ⟨1, 1⟩)] := rfl
    have hgenesis : filterBlockTree forkEnv forkStore (3 + 1) 1 ⟨0, 0⟩ ∅ =
        some (true, (((∅ : Blocks).insert 3 ⟨1, 1⟩).insert 2 ⟨1, 1⟩).insert 1 ⟨0, 0⟩) := by
      rw [filterBlockTree]
      simp only [hchildren, Fallible.mapReduce, hleaf 3 (.inr rfl) 3 _ (by decide),
        hleaf 2 (.inl rfl) 3 _ (by decide), Option.bind_eq_bind, Option.bind_some]
      rfl
    have hblock : forkEnv.db.getBlock 1 = some ⟨0, 0⟩ := rfl
    simp only [getFilteredBlockTree, show forkStore.justifiedCheckpoint.root = 1 from rfl, hblock,
      show forkStore.treeCache.nodes.entries.length = 3 from rfl, hgenesis, Option.bind_eq_bind, Option.bind_some]
    rfl
  have hstate : Store.getCheckpointState forkEnv forkStore forkStore.justifiedCheckpoint =
      some (forkStore, some forkState) := rfl
  have hsorted : ([2, 3] : List Root).mergeSort (fun a b => decide (a ≥ b)) = [3, 2] := by
    simp [List.mergeSort]
  have hbest : Fallible.maxBy? (getWeight forkEnv forkStore · forkState) [3, 2] = some 3 := by decide
  have hhead : computeHead forkEnv forkStore [(1, 0), (2, 1), (3, 1)] forkState (3 + 1) 1 = some 3 := by
    rw [computeHead]
    change (do
      let bestChild ← Fallible.maxBy? (getWeight forkEnv forkStore · forkState) ([2, 3].mergeSort fun a b => a ≥ b)
      computeHead forkEnv forkStore [(1, 0), (2, 1), (3, 1)] forkState 3 bestChild) = some 3
    rw [hsorted, hbest]
    rfl
  simp only [getHead, hfiltered, hstate, Option.bind_eq_bind, Option.bind_some]
  exact hhead

/-- On the fork, the head `3` is a child of the justified genesis block. -/
theorem getHead_descends_on_fork :
    getHead forkEnv forkStore = some 3 ∧
      Relation.ReflTransGen forkEnv.db.IsChild 3 forkStore.justifiedCheckpoint.root :=
  ⟨getHead_fork, getHead_descends forkEnv forkStore getHead_fork⟩

end Head

end LambdaEthereumConsensus.ForkChoice
