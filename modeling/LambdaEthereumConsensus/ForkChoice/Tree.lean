import LambdaEthereumConsensus.StateTransition.Types

/-
  LambdaEthereumConsensus.ForkChoice.Tree — `ForkChoice.Simple.Tree`
  (`fork_choice/simple_tree.ex`), the store's `tree_cache` of block roots under the
  finalized block.

  A tree is its root and a map from a block root to its node: its parent (`:root` for the
  tree's root, here `none`) and its children, newest first. `add_block/3` puts a new node
  under a parent in the tree; `update_root!/2` keeps the subtree of a new root, found by
  `get_subtree/3` along the children.

  `get_subtree/3` ends on a map whose children never lead back to a node already on the
  path; a path visits distinct nodes, so `updateRoot!` gives it the number of nodes as
  fuel. Where the map holds a cycle, the code never returns and the model gives `none`.

  `add_block/3` fails exactly on a parent not in the tree (`addBlock_eq_none_iff`), and does not
  look for the block itself: adding a block already in the tree puts a fresh node over its old
  one, dropping its children, and lists it once more among its parent's children. Three calls
  from `new/1` give a root that lists its child twice and a grandchild that is no node's child
  (`addBlock_again_breaks_tree`).
-/

namespace LambdaEthereumConsensus.ForkChoice

open LambdaEthereumConsensus.StateTransition

/-- `%Tree.Node{}`. -/
structure Node where
  parentId : Option Root
  childrenIds : List Root
  deriving DecidableEq, Repr

/-- The nodes of a tree, by block root. -/
abbrev Nodes := AList fun _ : Root => Node

/-- `%Simple.Tree{}`. -/
structure Tree where
  root : Root
  nodes : Nodes

namespace Tree

/-- `Tree.new/1`. -/
def new (root : Root) : Tree := ⟨root, (∅ : Nodes).insert root ⟨none, []⟩⟩

/-- `add_node_to_tree/3`; `none` is `{:error, :not_found}`, a parent not in the tree. -/
def addNodeToTree (nodes : Nodes) (blockRoot : Root) (node : Node) : Option Nodes := do
  let parentId ← node.parentId
  let parent ← nodes.lookup parentId
  -- `Map.put/3`, then `Map.replace!/3` on the parent, which the put leaves in the map
  pure ((nodes.insert blockRoot node).replace parentId
    { parent with childrenIds := blockRoot :: parent.childrenIds })

/-- `Tree.add_block/3`; `none` is `{:error, :not_found}`. -/
def addBlock (tree : Tree) (blockRoot parentRoot : Root) : Option Tree := do
  let nodes ← addNodeToTree tree.nodes blockRoot ⟨some parentRoot, []⟩
  pure { tree with nodes }

/-- `get_subtree/3`: the node and, child by child, each child's subtree, the nodes already
    collected winning in `Map.merge/2`. `Map.fetch!/2` raises on a child not in the map. -/
def getSubtree (nodes : Nodes) : Nat → Root → Node → Option Nodes
  | _, id, ⟨parentId, []⟩ => some ((∅ : Nodes).insert id ⟨parentId, []⟩)
  | 0, _, _ => none
  | fuel + 1, id, node =>
    node.childrenIds.foldlM (fun acc childId => do
        let child ← nodes.lookup childId
        let subtree ← getSubtree nodes fuel childId child
        pure (acc ∪ subtree))
      ((∅ : Nodes).insert id node)

/-- `Tree.update_root!/2`: `none` where it raises, on a new root not in the tree. -/
def updateRoot! (tree : Tree) (newRoot : Root) : Option Tree :=
  if tree.root = newRoot then some tree
  else do
    let node ← tree.nodes.lookup newRoot
    let nodes ← getSubtree tree.nodes tree.nodes.entries.length newRoot { node with parentId := none }
    pure ⟨newRoot, nodes⟩

/-- `Tree.get_children!/2`: `none` where it raises, on a parent not in the tree. -/
def getChildren! (tree : Tree) (parentId : Root) : Option (List Root) :=
  (tree.nodes.lookup parentId).map (·.childrenIds)

/-- `Tree.has_block?/2`. -/
def hasBlock? (tree : Tree) (blockRoot : Root) : Bool := (tree.nodes.lookup blockRoot).isSome

/-! ## Adding a block again -/

/-- `add_block/3` fails exactly on a parent not in the tree. -/
theorem addBlock_eq_none_iff (tree : Tree) (blockRoot parentRoot : Root) :
    tree.addBlock blockRoot parentRoot = none ↔ tree.nodes.lookup parentRoot = none := by
  cases hparent : tree.nodes.lookup parentRoot <;> simp [addBlock, addNodeToTree, hparent]

/-- Block 2 under 1, block 3 under 2, then block 2 under 1 again: the root lists 2 twice, and 2's
    fresh node has no children, while 3 still names 2 as its parent. -/
theorem addBlock_again_breaks_tree :
    ∃ tree, ((Tree.new 1).addBlock 2 1 >>= (·.addBlock 3 2) >>= (·.addBlock 2 1)) = some tree ∧
      tree.getChildren! 1 = some [2, 2] ∧ tree.getChildren! 2 = some [] ∧
      (tree.nodes.lookup 3).map (·.parentId) = some (some 2) :=
  ⟨_, rfl, rfl, rfl, rfl⟩

end Tree

end LambdaEthereumConsensus.ForkChoice
