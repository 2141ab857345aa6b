import BtreeDb.Node.Layout

/-!
# Nodes and their pages

Writing a node to a page and reading it back gives the node, as long as its
fields fit the 32-bit words they are stored in.
-/

namespace BtreeDb

open Bytes

/-- The fields of a node fit the words they are stored in. -/
structure Encodable (node : BTreeNode) : Prop where
  rightChild_lt : node.rightChild < 2 ^ 32
  key_lt : ∀ key ∈ node.keys, key.key < 2 ^ 32
  flags_lt : ∀ key ∈ node.keys, key.flags < 2 ^ 32
  pageSize_lt : node.pageSize < 2 ^ 32

/-! ## Reading words of a concatenation -/

theorem u32At_append_drop (front back : List UInt8) (offset : Nat) :
    u32At (front ++ back) (front.length + offset) = u32At back offset := by
  unfold u32At
  rw [slice_append_drop]

theorem pageKeyAt_append_drop (front back : List UInt8) (offset : Nat) :
    pageKeyAt (front ++ back) (front.length + offset) =
      pageKeyAt back offset := by
  unfold pageKeyAt
  simp only [Nat.add_assoc, u32At_append_drop]

theorem pageKeyAt_bytes {key : PageKey} (keyFits : key.key < 2 ^ 32)
    (offsetFits : key.cellOffset < 2 ^ 32) (flagsFit : key.flags < 2 ^ 32)
    (rest : List UInt8) : pageKeyAt (key.bytes ++ rest) 0 = key := by
  have second := u32At_append_drop (le32 key.key)
    (le32 key.cellOffset ++ (le32 key.flags ++ rest)) 0
  have third := u32At_append_drop (le32 key.key)
    (le32 key.cellOffset ++ (le32 key.flags ++ rest)) 4
  have inner := u32At_append_drop (le32 key.cellOffset)
    (le32 key.flags ++ rest) 0
  rw [le32_length] at second third inner
  rw [inner, u32At_le32, Nat.mod_eq_of_lt flagsFit] at third
  rw [u32At_le32, Nat.mod_eq_of_lt offsetFits] at second
  unfold pageKeyAt PageKey.bytes
  simp only [List.append_assoc, Nat.zero_add]
  rw [u32At_le32, Nat.mod_eq_of_lt keyFits, second, third]

theorem PageKey.bytes_length (key : PageKey) :
    key.bytes.length = pageKeySize := rfl

theorem keyBytes_length (keys : List PageKey) :
    (keys.flatMap PageKey.bytes).length = pageKeySize * keys.length := by
  induction keys with
  | nil => rfl
  | cons key keys inductionHypothesis =>
      rw [List.flatMap_cons, List.length_append, inductionHypothesis,
        PageKey.bytes_length, List.length_cons]
      unfold pageKeySize
      omega

/-- The key array is read back key by key. -/
theorem pageKeyAt_keyBytes {keys : List PageKey} {rest : List UInt8}
    (keyFits : ∀ key ∈ keys, key.key < 2 ^ 32)
    (offsetFits : ∀ key ∈ keys, key.cellOffset < 2 ^ 32)
    (flagsFit : ∀ key ∈ keys, key.flags < 2 ^ 32) :
    ∀ index key, keys[index]? = some key →
      pageKeyAt (keys.flatMap PageKey.bytes ++ rest) (pageKeySize * index) =
        key := by
  induction keys with
  | nil =>
      intro index key here
      simp at here
  | cons head tail inductionHypothesis =>
      intro index key here
      rw [List.flatMap_cons, List.append_assoc]
      cases index with
      | zero =>
          rw [List.getElem?_cons_zero] at here
          cases here
          exact pageKeyAt_bytes (keyFits _ List.mem_cons_self)
            (offsetFits _ List.mem_cons_self) (flagsFit _ List.mem_cons_self) _
      | succ index =>
          rw [List.getElem?_cons_succ] at here
          have place : pageKeySize * (index + 1) =
              head.bytes.length + pageKeySize * index := by
            rw [PageKey.bytes_length]
            unfold pageKeySize
            omega
          rw [place, pageKeyAt_append_drop]
          exact inductionHypothesis
            (fun key member => keyFits key (List.mem_cons_of_mem _ member))
            (fun key member => offsetFits key (List.mem_cons_of_mem _ member))
            (fun key member => flagsFit key (List.mem_cons_of_mem _ member))
            index key here

/-! ## The round trip -/

theorem headerBytes_length (node : BTreeNode) :
    node.headerBytes.length = pageHeaderSize := rfl

theorem page_pageBuffer_length (node : BTreeNode) :
    node.page.pageBuffer.length = node.pageSize := by
  unfold BTreeNode.page BTreeNode.pageSize
  simp only [List.length_append, headerBytes_length, keyBytes_length]

/-- The words of the header. -/
theorem headerBytes_words (node : BTreeNode) (rest : List UInt8) :
    u32At (node.headerBytes ++ rest) 4 = node.freeHeap % 2 ^ 32 ∧
      u32At (node.headerBytes ++ rest) 8 = node.numKeys % 2 ^ 32 ∧
      u32At (node.headerBytes ++ rest) 12 = node.rightChild % 2 ^ 32 ∧
      u32At (node.headerBytes ++ rest) 16 =
        node.cellHighWaterOffset % 2 ^ 32 := by
  let first : List UInt8 := [if node.isLeaf then 1 else 0, 0, 0, 0]
  have step1 := u32At_append_drop first
    (le32 node.freeHeap ++ (le32 node.numKeys ++ (le32 node.rightChild ++
      (le32 node.cellHighWaterOffset ++ rest))))
  have step2 := u32At_append_drop (le32 node.freeHeap)
    (le32 node.numKeys ++ (le32 node.rightChild ++
      (le32 node.cellHighWaterOffset ++ rest)))
  have step3 := u32At_append_drop (le32 node.numKeys)
    (le32 node.rightChild ++ (le32 node.cellHighWaterOffset ++ rest))
  have step4 := u32At_append_drop (le32 node.rightChild)
    (le32 node.cellHighWaterOffset ++ rest)
  have firstLength : first.length = 4 := rfl
  rw [firstLength] at step1
  rw [le32_length] at step2 step3 step4
  have whole : node.headerBytes ++ rest =
      first ++ (le32 node.freeHeap ++ (le32 node.numKeys ++
        (le32 node.rightChild ++
          (le32 node.cellHighWaterOffset ++ rest)))) := by
    unfold BTreeNode.headerBytes
    simp only [List.append_assoc, first]
  rw [whole]
  refine ⟨?_, ?_, ?_, ?_⟩
  · rw [step1 0, u32At_le32]
  · rw [step1 4, step2 0, u32At_le32]
  · rw [step1 8, step2 4, step3 0, u32At_le32]
  · rw [step1 12, step2 8, step3 4, step4 0, u32At_le32]

/-- The page of a node is read back as the node. -/
theorem nodeOfPage_page {node : BTreeNode} (ok : NodeOk node)
    (encodable : Encodable node) : nodeOfPage node.page = node := by
  have pageSize_lt := encodable.pageSize_lt
  have free := ok.free
  have used := ok.used
  have lead := ok.lead
  have heapFits : node.heap.length < 2 ^ 32 := by
    unfold BTreeNode.pageSize at pageSize_lt
    omega
  have numKeysFits : node.numKeys < 2 ^ 32 := by
    unfold BTreeNode.pageSize pageKeySize at pageSize_lt
    omega
  have words := headerBytes_words node
    (node.keys.flatMap PageKey.bytes ++ node.heap)
  rw [Nat.mod_eq_of_lt (by omega), Nat.mod_eq_of_lt numKeysFits,
    Nat.mod_eq_of_lt encodable.rightChild_lt,
    Nat.mod_eq_of_lt (by omega)] at words
  obtain ⟨freeWord, numKeysWord, rightWord, highWaterWord⟩ := words
  have bufferEq : node.page.pageBuffer = node.leadBytes ++
      (node.headerBytes ++
        (node.keys.flatMap PageKey.bytes ++ node.heap)) := by
    unfold BTreeNode.page
    simp only [List.append_assoc]
  have bufferLength := page_pageBuffer_length node
  rw [bufferEq] at bufferLength
  have word : ∀ offset, u32At (node.leadBytes ++ (node.headerBytes ++
      (node.keys.flatMap PageKey.bytes ++ node.heap)))
        (headerOffset node.pageNumber + offset) =
      u32At (node.headerBytes ++
        (node.keys.flatMap PageKey.bytes ++ node.heap)) offset := by
    intro offset
    rw [← lead, u32At_append_drop]
  have keyWord : ∀ index,
      pageKeyAt (node.leadBytes ++ (node.headerBytes ++
        (node.keys.flatMap PageKey.bytes ++ node.heap)))
        (headerOffset node.pageNumber + pageHeaderSize +
          pageKeySize * index) =
      pageKeyAt (node.keys.flatMap PageKey.bytes ++ node.heap)
        (pageKeySize * index) := by
    intro index
    rw [← lead, ← headerBytes_length node, Nat.add_assoc,
      pageKeyAt_append_drop, pageKeyAt_append_drop]
  have offsetFits : ∀ key ∈ node.keys, key.cellOffset < 2 ^ 32 := by
    intro key member
    have inside := (ok.placed key member).offset_le
    omega
  have pageIdEq : node.page.pageId = node.pageNumber := rfl
  have metaEq : node.page.metaBytes = node.metaBytes := rfl
  unfold nodeOfPage
  simp only
  rw [pageIdEq, metaEq, bufferEq]
  simp only [word, numKeysWord, freeWord, rightWord, highWaterWord, keyWord]
  have leafByte : (node.leadBytes ++ (node.headerBytes ++
      (node.keys.flatMap PageKey.bytes ++ node.heap))).getD
        (headerOffset node.pageNumber) 0 = if node.isLeaf then 1 else 0 := by
    rw [← lead, List.getD_eq_getElem?_getD,
      List.getElem?_append_right (Nat.le_refl _), Nat.sub_self]
    rfl
  have keysEq : ((List.range node.numKeys).map fun index =>
      pageKeyAt (node.keys.flatMap PageKey.bytes ++ node.heap)
        (pageKeySize * index)) = node.keys := by
    apply List.ext_getElem?
    intro index
    rw [List.getElem?_map]
    by_cases inside : index < node.keys.length
    · rw [List.getElem?_range inside, List.getElem?_eq_getElem inside]
      exact congrArg some (pageKeyAt_keyBytes encodable.key_lt offsetFits
        encodable.flags_lt index _ (List.getElem?_eq_getElem inside))
    · rw [List.getElem?_eq_none (by simpa using inside),
        List.getElem?_eq_none (by simpa using inside)]
      rfl
  have heapEq : (node.leadBytes ++ (node.headerBytes ++
      (node.keys.flatMap PageKey.bytes ++ node.heap))).drop
        (headerOffset node.pageNumber + pageHeaderSize +
          pageKeySize * node.numKeys) = node.heap := by
    rw [← lead, ← headerBytes_length node, ← keyBytes_length, Nat.add_assoc,
      ← List.drop_drop, List.drop_left, ← List.drop_drop, List.drop_left,
      List.drop_left]
  have leafEq : ((if node.isLeaf then (1 : UInt8) else 0) != 0) =
      node.isLeaf := by
    cases node.isLeaf <;> rfl
  rw [leafByte, leafEq, keysEq, heapEq, ← lead, List.take_left]

theorem NodeOk.freeHeap_of_empty {node : BTreeNode} (ok : NodeOk node)
    (empty : node.numKeys = 0) :
    node.freeHeap = heapCapacity node.pageNumber node.pageSize := by
  have noKeys : node.keys = [] := List.length_eq_zero_iff.mp empty
  have noEntries : node.entries = [] := by
    simp [BTreeNode.entries, noKeys]
  have free := ok.free
  have used := ok.used
  rw [noEntries, List.map_nil, List.sum_nil] at used
  unfold BTreeNode.pageSize heapCapacity
  rw [empty, ok.lead]
  omega

theorem nodeInitFromPage_page {node : BTreeNode} (ok : NodeOk node)
    (encodable : Encodable node) : nodeInitFromPage node.page = node := by
  unfold nodeInitFromPage
  simp only
  rw [nodeOfPage_page ok encodable]
  have bufferLength := page_pageBuffer_length node
  have freeEq : (if node.numKeys = 0 then
      heapCapacity node.page.pageId node.page.pageBuffer.length
      else node.freeHeap) = node.freeHeap := by
    split
    · rename_i empty
      rw [bufferLength]
      exact (ok.freeHeap_of_empty empty).symm
    · rfl
  rw [freeEq]

end BtreeDb
