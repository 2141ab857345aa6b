import BtreeDb.Node.Defs

/-!
# Loading and storing nodes

`noderc.c` and `btree_overflow.c`: nodes and overflow pages on their way
between memory and the disk.
-/

namespace BtreeDb

open Bytes

/-- A page as `page_create` makes it. -/
def blankPage (disk : Disk) (pageId : Nat) : Page :=
  { pageCreate ( PageIO.diskPageSize disk) with pageId := pageId }

/-- `pager_read_page` under `btpage_err`. -/
def readPage (pageId : Nat) : BtM Page := do
  let (result, page) ← BtM.ofPager do
    let blank := blankPage (← get) pageCreateNewPage
    pagerReadPage pageId blank
  BtM.ofExcept (btpageErr result)
  pure page

/-- `pager_write_page` under `btpage_err`. -/
def writePage (page : Page) : BtM Page := do
  let (result, page) ← BtM.ofPager (pagerWritePage page)
  BtM.ofExcept (btpageErr result)
  pure page

/-! ## Nodes -/

/-- `noderc_acquire`: a node on a page that is not on disk yet. -/
def nodercAcquire : BtM BTreeNode := do
  pure (nodeInitFromPage (blankPage (← BtM.getDisk) pageCreateNewPage))

/-- `noderc_reinit_as` on an acquired node. -/
def nodercReinitAs (pageNumber : Nat) : BtM BTreeNode := do
  pure (nodeInitFromPage (blankPage (← BtM.getDisk) pageNumber))

/-- `noderc_reinit_read` and `noderc_acquire_load`. -/
def nodercReinitRead (pageId : Nat) : BtM BTreeNode := do
  pure (nodeInitFromPage (← readPage pageId))

/-- `noderc_persist_n` of one node, which then knows its page. -/
def nodercPersist (node : BTreeNode) : BtM BTreeNode := do
  let page ← writePage node.page
  pure { node with pageNumber := page.pageId, metaBytes := page.metaBytes }

/-- `noderc_persist_n`. -/
def nodercPersistN : List BTreeNode → BtM (List BTreeNode)
  | [] => pure []
  | node :: nodes => do
      let node ← nodercPersist node
      let nodes ← nodercPersistN nodes
      pure (node :: nodes)

/-! ## Overflow pages -/

/-- `struct BTreeOverflowReadResult` with the payload it points to. -/
structure OverflowPage where
  nextPageId : Nat
  payloadBytes : Nat
  payload : List UInt8
  deriving DecidableEq, Repr

def btreeOverflowMaxWriteSize (disk : Disk) : Nat := disk.pageSize - 4 * 2

/-- `btree_overflow_peek`. -/
def btreeOverflowPeek (pageId : Nat) : BtM OverflowPage := do
  let page ← readPage pageId
  let bytesOnPage := u32At page.pageBuffer 4
  BtM.assert (bytesOnPage < (← BtM.getDisk).pageSize)
  pure
    { nextPageId := u32At page.pageBuffer 0
      payloadBytes := bytesOnPage
      payload := page.pageBuffer.drop 8 }

/-- `btree_overflow_read`: the next page and the bytes copied. -/
def btreeOverflowRead (pageId bufferSize : Nat) :
    BtM (Nat × List UInt8) := do
  let out ← btreeOverflowPeek pageId
  if out.payloadBytes > bufferSize then
    BtM.fail .errNodeNotEnoughSpace
  else
    pure (out.nextPageId, out.payload.take out.payloadBytes)

/-- `btree_overflow_write`: the page that was written. -/
def btreeOverflowWrite (data : List UInt8) (followPageId : Nat) :
    BtM Nat := do
  let disk ← BtM.getDisk
  if data.length > btreeOverflowMaxWriteSize disk then
    BtM.fail .errNodeNotEnoughSpace
  else
    let blank := blankPage disk pageCreateNewPage
    let page ← writePage
      { blank with
        pageBuffer := splice blank.pageBuffer 0
          (le32 followPageId ++ le32 data.length ++ data) }
    pure page.pageId

end BtreeDb
