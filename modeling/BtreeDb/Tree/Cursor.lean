import BtreeDb.Node.Rc

/-!
# Cursors

`btree_cursor.c`: a cursor remembers the way from the root down to its place
as a stack of breadcrumbs of bounded depth, the last one first here.
-/

namespace BtreeDb

open Bytes

inductive BTreeType where
  | table
  | index
  deriving DecidableEq, Repr

structure BTree where
  rootPageId : Nat
  type : BTreeType
  underflow : Nat
  deriving DecidableEq, Repr

structure CursorBreadcrumb where
  keyIndex : ChildListIndex
  pageId : Nat
  deriving DecidableEq, Repr

structure Cursor where
  currentPageId : Nat
  currentKeyIndex : ChildListIndex
  breadcrumbs : List CursorBreadcrumb
  deriving DecidableEq, Repr

/-- The length of `breadcrumbs`. -/
def maxBreadcrumbs : Nat := 8

def cursorPush (cursor : Cursor) : Except Stop Cursor :=
  if cursor.breadcrumbs.length = maxBreadcrumbs then
    .error (.err .errCursorDepthExceeded)
  else
    .ok { cursor with
      breadcrumbs :=
        ⟨cursor.currentKeyIndex, cursor.currentPageId⟩ :: cursor.breadcrumbs }

def cursorPushCrumb (cursor : Cursor) (crumb : CursorBreadcrumb) :
    Except Stop Cursor :=
  if cursor.breadcrumbs.length = maxBreadcrumbs then
    .error (.err .errCursorDepthExceeded)
  else
    .ok
      { currentPageId := crumb.pageId
        currentKeyIndex := crumb.keyIndex
        breadcrumbs := crumb :: cursor.breadcrumbs }

/-- `cursor_pop`: the cursor goes back to the crumb below. -/
def cursorPop (cursor : Cursor) : Except Stop (CursorBreadcrumb × Cursor) :=
  match cursor.breadcrumbs with
  | [] => .error (.err .errCursorNoParent)
  | crumb :: rest =>
      match rest with
      | [] => .ok (crumb, ⟨0, ⟨.limEnd, 0⟩, []⟩)
      | below :: _ => .ok (crumb, ⟨below.pageId, below.keyIndex, rest⟩)

def cursorPeek (cursor : Cursor) : Except Stop CursorBreadcrumb :=
  match cursor.breadcrumbs with
  | [] => .error (.err .errCursorNoParent)
  | crumb :: _ => .ok crumb

/-- `cursor_create`. -/
def cursorCreate (tree : BTree) : Cursor where
  currentPageId := tree.rootPageId
  currentKeyIndex := ⟨.limIndex, 0⟩
  breadcrumbs := [⟨⟨.limIndex, 0⟩, tree.rootPageId⟩]

/-- `read_cell_page`: the page of a child. -/
def readCellPage (tree : BTree) (node : BTreeNode) (childKeyIndex : Nat) :
    Except Stop Nat :=
  if childKeyIndex ≥ node.numKeys then
    .ok node.rightChild
  else
    match tree.type with
    | .table =>
        let cell := btuGetCellBuffer node childKeyIndex
        if cellInlineSize cell ≠ 4 then .error (.err .errCorruptCell)
        else .ok (u32At cell 4)
    | .index => .ok (node.keyAt childKeyIndex).key

/-- `cursor_traverse_to_ex` with the search of one node as a parameter.  Every
turn of the loop pushes a crumb, so the stack bounds the turns. -/
def cursorTraverseLoop (tree : BTree)
    (searchKeys : BTreeNode → BtM (Bool × Nat)) :
    Nat → Cursor → Bool → BtM (Bool × Cursor)
  | 0, _, _ => BtM.stop .diverges
  | fuel + 1, cursor, found => do
      let node ← nodercReinitRead cursor.currentPageId
      let (hit, childKeyIndex) ← searchKeys node
      let found := found || hit
      let cursor ← BtM.ofExcept (cursorPush
        { cursor with
          currentKeyIndex := initKeylistindexFromIndex node childKeyIndex })
      if !node.isLeaf && (tree.type != .index || !found) then
        let page ← BtM.ofExcept (readCellPage tree node childKeyIndex)
        cursorTraverseLoop tree searchKeys fuel
          { cursor with currentPageId := page } found
      else
        pure (found, cursor)

def cursorTraverseToEx (tree : BTree)
    (searchKeys : BTreeNode → BtM (Bool × Nat)) (cursor : Cursor) :
    BtM (Bool × Cursor) :=
  cursorTraverseLoop tree searchKeys (maxBreadcrumbs + 1) cursor false

/-- `btree_node_search_keys` with `btree_compare`, which looks at the keys
only. -/
def btreeNodeSearchKeys (node : BTreeNode) (key : Nat) : Bool × Nat :=
  BinarySearch.search
    (BinarySearch.compareAt
      (fun pageKey : PageKey => compare pageKey.key key) node.keys)
    node.numKeys

/-- `cursor_traverse_to`. -/
def cursorTraverseTo (tree : BTree) (cursor : Cursor) (key : Nat) :
    BtM (Bool × Cursor) :=
  cursorTraverseToEx tree
    (fun node => pure (btreeNodeSearchKeys node key)) cursor

end BtreeDb
