import BtreeDb.Node.Loaded

/-!
# Checking nodes and disks

Whether a node is well formed and on disk, and whether a disk's free list is
in order, can be computed.  `diskOfNodes` makes small disks of nodes.
-/

namespace BtreeDb

open Disk

/-! ## Nodes -/

/-- The node that loading a page gives. -/
def loadedNode (disk : Disk) (page : Nat) : BTreeNode :=
  nodeInitFromPage
    (match disk.page? page with
      | some image => ⟨page, image.metaBytes, image.pageBuffer⟩
      | none => blankPage disk page)

instance (heap : List UInt8) : DecidableRel (Apart heap) :=
  fun _ _ => inferInstanceAs (Decidable (_ ∨ _))

instance (heap : List UInt8) (highWater : Nat) (key : PageKey) :
    Decidable (Placed heap highWater key) :=
  decidable_of_iff
    (cellTotal heap key.cellOffset ≤ key.cellOffset ∧
      key.cellOffset ≤ highWater)
    ⟨fun both => ⟨both.1, both.2⟩, fun placed => ⟨placed.1, placed.2⟩⟩

instance (node : BTreeNode) : Decidable (NodeOk node) :=
  decidable_of_iff
    (node.leadBytes.length = headerOffset node.pageNumber ∧
      node.freeHeap + node.cellHighWaterOffset = node.heap.length ∧
      node.cellHighWaterOffset = (node.entries.map Entry.cellSize).sum ∧
      (∀ key ∈ node.keys, Placed node.heap node.cellHighWaterOffset key) ∧
      node.keys.Pairwise (Apart node.heap))
    ⟨fun ⟨lead, free, used, placed, apart⟩ => ⟨lead, free, used, placed, apart⟩,
      fun ok => ⟨ok.lead, ok.free, ok.used, ok.placed, ok.apart⟩⟩

instance (node : BTreeNode) : Decidable (Encodable node) :=
  decidable_of_iff
    (node.rightChild < 2 ^ 32 ∧ (∀ key ∈ node.keys, key.key < 2 ^ 32) ∧
      (∀ key ∈ node.keys, key.flags < 2 ^ 32) ∧ node.pageSize < 2 ^ 32)
    ⟨fun ⟨right, keys, flags, size⟩ => ⟨right, keys, flags, size⟩,
      fun fits => ⟨fits.rightChild_lt, fits.key_lt, fits.flags_lt,
        fits.pageSize_lt⟩⟩

instance (disk : Disk) (node : BTreeNode) : Decidable (Holds disk node) :=
  decidable_of_iff
    (disk.buffer? node.pageNumber = some node.page.pageBuffer ∧
      NodeOk node ∧ Encodable node)
    ⟨fun ⟨buffer, ok, fits⟩ => ⟨buffer, ok, fits⟩,
      fun holds => ⟨holds.buffer, holds.ok, holds.encodable⟩⟩

/-- The node on a page is one that the page holds. -/
def NodeOn (disk : Disk) (page : Nat) : Prop :=
  Holds disk (loadedNode disk page) ∧ (loadedNode disk page).pageNumber = page

instance (disk : Disk) (page : Nat) : Decidable (NodeOn disk page) :=
  inferInstanceAs (Decidable (_ ∧ _))

def SmallCells (node : BTreeNode) : Prop :=
  ∀ entry ∈ node.entries, entry.heapSize ≤ btreeNodeMaxCellSize node

instance (node : BTreeNode) : Decidable (SmallCells node) :=
  inferInstanceAs (Decidable (∀ entry ∈ node.entries, _))

/-! ## Disks -/

instance (disk : Disk) : (pageId : Nat) → (free : List Nat) →
    Decidable (FreeChain disk pageId free)
  | _, [] => inferInstanceAs (Decidable (_ = 0))
  | _, first :: rest =>
      have : Decidable (FreeChain disk (disk.nextFree first) rest) :=
        instDecidableFreeChain disk _ rest
      inferInstanceAs (Decidable (_ ∧ _ ∧ _))

/-- The condition of `Store` on the pages of a list. -/
def CheckedStore (disk : Disk) (free : List Nat) : Prop :=
  (∀ image ∈ disk.pages, image.metaBytes.length = pagemetaSize ∧
      image.pageBuffer.length = disk.pageSize) ∧
    disk.maxPage < pageIdLimit ∧ disk.maxPage ≠ 0 ∧
    FreeChain disk (disk.nextFree 1) free ∧ free.Nodup ∧ 1 ∉ free

instance (disk : Disk) (free : List Nat) : Decidable (CheckedStore disk free) :=
  inferInstanceAs (Decidable (_ ∧ _))

theorem CheckedStore.store {disk : Disk} {free : List Nat}
    (checked : CheckedStore disk free) : Store disk free where
  sized := by
    intro pageId image found
    unfold Disk.page? at found
    split at found
    · cases found
    · exact checked.1 image (List.mem_of_getElem? found)
  few := checked.2.1
  first := checked.2.2.1
  chain := checked.2.2.2.1
  distinct := checked.2.2.2.2.1
  firstUsed := checked.2.2.2.2.2

/-! ## Sample pages -/

/-- A node with the given keys and cells, put in one after the other. -/
def filledNode (pageSize page : Nat) (isLeaf : Bool) (rightChild : Nat)
    (cells : List (Nat × List UInt8)) : Except Stop BTreeNode :=
  let blank := nodeInitFromPage (blankPage ⟨pageSize, []⟩ page)
  cells.foldlM
    (fun node cell =>
      nodeInsertInline node insertEnd cell.1 ⟨cell.2.length, cell.2⟩)
    { blank with isLeaf := isLeaf, rightChild := rightChild }

/-- A disk with the given nodes, each on the page of its place. -/
def diskOfNodes (pageSize : Nat)
    (nodes : List (Bool × Nat × List (Nat × List UInt8))) : Disk where
  pageSize := pageSize
  pages := (nodes.zipIdx 1).map fun ((isLeaf, rightChild, cells), page) =>
    match filledNode pageSize page isLeaf rightChild cells with
    | .ok node => node.page.image
    | .error _ => Disk.blankImage pageSize

end BtreeDb
