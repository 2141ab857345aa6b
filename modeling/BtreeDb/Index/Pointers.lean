import BtreeDb.Index.Tree

/-!
# The child pages of an index node

A removal may spoil the cells it moves, but not the keys, and the keys are the
child pages of an index node.  They are read back from the page whatever the
cells are.
-/

namespace BtreeDb

open Bytes

/-! ## Keys under a removal -/

/-- The same page, right child and key numbers. -/
structure SamePointers (node after : BTreeNode) : Prop where
  pageNumber_eq : after.pageNumber = node.pageNumber
  metaBytes_eq : after.metaBytes = node.metaBytes
  leadBytes_eq : after.leadBytes = node.leadBytes
  rightChild_eq : after.rightChild = node.rightChild
  keys_eq : after.keys.map PageKey.key = node.keys.map PageKey.key

theorem SamePointers.refl (node : BTreeNode) : SamePointers node node :=
  ⟨rfl, rfl, rfl, rfl, rfl⟩

theorem SamePointers.trans {node middle after : BTreeNode}
    (first : SamePointers node middle) (second : SamePointers middle after) :
    SamePointers node after where
  pageNumber_eq := second.pageNumber_eq.trans first.pageNumber_eq
  metaBytes_eq := second.metaBytes_eq.trans first.metaBytes_eq
  leadBytes_eq := second.leadBytes_eq.trans first.leadBytes_eq
  rightChild_eq := second.rightChild_eq.trans first.rightChild_eq
  keys_eq := second.keys_eq.trans first.keys_eq

theorem gcStep_samePointers (deletedOffset shiftSize : Nat) (node : BTreeNode)
    (index : Nat) :
    SamePointers node (gcStep deletedOffset shiftSize node index) := by
  unfold gcStep
  split
  · rename_i key here
    split
    · exact .refl node
    · refine ⟨rfl, rfl, rfl, rfl, ?_⟩
      simp only
      have sameKey : (node.keys.map PageKey.key)[index]? = some key.key := by
        rw [List.getElem?_map, here]
        rfl
      obtain ⟨_, keyEq⟩ := List.getElem?_eq_some_iff.mp sameKey
      rw [List.map_set, ← keyEq, List.set_getElem_self]
  · exact .refl node

theorem foldl_gcStep_samePointers (deletedOffset shiftSize : Nat) :
    ∀ (indexes : List Nat) (node : BTreeNode), SamePointers node
      (indexes.foldl (gcStep deletedOffset shiftSize) node)
  | [], node => .refl node
  | index :: indexes, node =>
      (gcStep_samePointers deletedOffset shiftSize node index).trans
        (foldl_gcStep_samePointers deletedOffset shiftSize indexes _)

/-- A removal takes one key number out. -/
theorem nodeRemoveAt_samePointers (node : BTreeNode) (index : Nat) :
    SamePointers { node with keys := node.keys.eraseIdx index }
      (nodeRemoveAt node index) := by
  unfold nodeRemoveAt gcNode
  obtain ⟨number, metaEq, lead, right, keys⟩ := foldl_gcStep_samePointers
    (node.keyAt index).cellOffset
    (cellInlineSize (btuGetCellBuffer node index) + 4)
    (List.range (node.slideKeys index).numKeys) (node.slideKeys index)
  exact ⟨number, metaEq, lead, right, keys⟩

theorem indexKids_eq (node : BTreeNode) :
    indexKids node = node.keys.map PageKey.key ++ [node.rightChild] := by
  unfold indexKids BTreeNode.entries
  rw [List.map_map]
  rfl

theorem indexKids_length (node : BTreeNode) :
    (indexKids node).length = node.numKeys + 1 := by
  rw [indexKids_eq, List.length_append, List.length_map]
  rfl

theorem SamePointers.indexKids_eq {node after : BTreeNode}
    (same : SamePointers node after) : indexKids after = indexKids node := by
  rw [BtreeDb.indexKids_eq, BtreeDb.indexKids_eq, same.keys_eq,
    same.rightChild_eq]

/-- Taking out a slot takes out the child left of it. -/
theorem indexKids_nodeRemoveAt {node : BTreeNode} {index : Nat}
    (inside : index < node.numKeys) :
    indexKids (nodeRemoveAt node index) =
      (indexKids node).eraseIdx index := by
  rw [(nodeRemoveAt_samePointers node index).indexKids_eq, indexKids_eq,
    indexKids_eq, List.eraseIdx_append_of_lt_length (by simpa using inside),
    List.eraseIdx_map]

/-! ## Reading the keys back -/

theorem u32At_keyBytes (rest : List UInt8) :
    ∀ (keys : List PageKey) (index : Nat) (key : PageKey),
      keys[index]? = some key →
      u32At (keys.flatMap PageKey.bytes ++ rest) (pageKeySize * index) =
        key.key % 2 ^ 32
  | [], _, _, here => by simp at here
  | head :: tail, 0, key, here => by
      rw [List.getElem?_cons_zero] at here
      rw [← Option.some.inj here, List.flatMap_cons]
      unfold PageKey.bytes
      simp only [List.append_assoc, Nat.mul_zero]
      exact u32At_le32 head.key _
  | head :: tail, index + 1, key, here => by
      rw [List.getElem?_cons_succ] at here
      have place : pageKeySize * (index + 1) =
          head.bytes.length + pageKeySize * index := by
        rw [PageKey.bytes_length]
        unfold pageKeySize
        omega
      rw [List.flatMap_cons, List.append_assoc, place, u32At_append_drop]
      exact u32At_keyBytes rest tail index key here

/-- The key numbers of a node fit the words they are stored in. -/
structure PointersFit (node : BTreeNode) : Prop where
  lead : node.leadBytes.length = headerOffset node.pageNumber
  count : node.numKeys < 2 ^ 32
  rightChild : node.rightChild < 2 ^ 32
  keys : ∀ key ∈ node.keys, key.key < 2 ^ 32

theorem NodeOk.pointersFit {node : BTreeNode} (ok : NodeOk node)
    (encodable : Encodable node) : PointersFit node where
  lead := ok.lead
  count := by
    have size := encodable.pageSize_lt
    unfold BTreeNode.pageSize pageKeySize at size
    omega
  rightChild := encodable.rightChild_lt
  keys := encodable.key_lt

theorem PointersFit.removed {node : BTreeNode} (fit : PointersFit node)
    (index : Nat) : PointersFit (nodeRemoveAt node index) := by
  have same := nodeRemoveAt_samePointers node index
  have lengths := congrArg List.length same.keys_eq
  simp only [List.length_map] at lengths
  have fewer := List.length_eraseIdx_le node.keys index
  have count := fit.count
  refine ⟨?_, ?_, ?_, ?_⟩
  · rw [same.leadBytes_eq, same.pageNumber_eq]
    exact fit.lead
  · unfold BTreeNode.numKeys at count ⊢
    omega
  · rw [same.rightChild_eq]
    exact fit.rightChild
  · intro key member
    have image := List.mem_map_of_mem (f := PageKey.key) member
    rw [same.keys_eq] at image
    obtain ⟨old, oldMember, keyEq⟩ := List.mem_map.mp image
    rw [← keyEq]
    exact fit.keys old (List.mem_of_mem_eraseIdx oldMember)

/-- The child pages are read back from the page. -/
theorem PointersFit.indexKids_loaded {node : BTreeNode}
    (fit : PointersFit node) (metaBytes : List UInt8) :
    indexKids (nodeInitFromPage
      ⟨node.pageNumber, metaBytes, node.page.pageBuffer⟩) =
        indexKids node := by
  have bufferEq : node.page.pageBuffer = node.leadBytes ++
      (node.headerBytes ++
        (node.keys.flatMap PageKey.bytes ++ node.heap)) := by
    unfold BTreeNode.page
    simp only [List.append_assoc]
  have words := headerBytes_words node
    (node.keys.flatMap PageKey.bytes ++ node.heap)
  rw [Nat.mod_eq_of_lt fit.count, Nat.mod_eq_of_lt fit.rightChild] at words
  obtain ⟨_, countWord, rightWord, _⟩ := words
  have word : ∀ offset, u32At node.page.pageBuffer
      (headerOffset node.pageNumber + offset) =
      u32At (node.headerBytes ++
        (node.keys.flatMap PageKey.bytes ++ node.heap)) offset := by
    intro offset
    rw [bufferEq, ← fit.lead, u32At_append_drop]
  have keyWord : ∀ index, (pageKeyAt node.page.pageBuffer
      (headerOffset node.pageNumber + pageHeaderSize +
        pageKeySize * index)).key =
      u32At (node.keys.flatMap PageKey.bytes ++ node.heap)
        (pageKeySize * index) := by
    intro index
    unfold pageKeyAt
    simp only
    rw [Nat.add_assoc, word, ← headerBytes_length node, u32At_append_drop]
  rw [indexKids_eq, indexKids_eq]
  unfold nodeInitFromPage nodeOfPage
  simp only [word, countWord, rightWord, List.append_cancel_right_eq]
  apply List.ext_getElem?
  intro index
  rw [List.map_map, List.getElem?_map, List.getElem?_map]
  by_cases inside : index < node.keys.length
  · have here := List.getElem?_eq_getElem inside
    rw [List.getElem?_range inside, here]
    simp only [Option.map_some, Function.comp_apply, Option.some.injEq]
    rw [keyWord, u32At_keyBytes _ _ _ _ here,
      Nat.mod_eq_of_lt (fit.keys _ (List.mem_of_getElem? here))]
  · rw [List.getElem?_eq_none (by simpa using inside),
      List.getElem?_eq_none (by simpa using inside)]
    rfl

theorem PointersFit.indexKids_on {disk : Disk} {page : Nat} {node : BTreeNode}
    (fit : PointersFit node) (here : node.pageNumber = page)
    (onDisk : disk.buffer? page = some node.page.pageBuffer) :
    indexKids (loadedNode disk page) = indexKids node := by
  unfold Disk.buffer? at onDisk
  obtain ⟨image, found, buffer⟩ := Option.map_eq_some_iff.mp onDisk
  subst here
  unfold loadedNode
  rw [found]
  simp only
  rw [buffer]
  exact fit.indexKids_loaded image.metaBytes

/-- The child at an index, among all children. -/
theorem indexKids_childPage {tree : BTree} {disk : Disk} {page index : Nat}
    (isIndex : tree.type = .index) (bound : index ≤ keysOn disk page) :
    (indexKids (loadedNode disk page))[index]? =
      some (childPage tree disk page index) := by
  have inside : index < (indexKids (loadedNode disk page)).length := by
    rw [indexKids_length]
    exact Nat.lt_succ_of_le bound
  have kidHere := List.getElem?_eq_getElem inside
  have readEq := readCellPage_index isIndex kidHere
  unfold childPage
  rw [readEq]
  exact kidHere

end BtreeDb
