import DnsServer.Model.JsonText
import DnsServer.Model.Lifetime
import DnsServer.Resolution.Lookup
import DnsServer.Store.Building
import DnsServer.Store.Insertions

/-!
# Every block is given back

Every function of the server gives back what it allocates besides the records of the table,
on each of its paths and whatever allocations fail: the nodes of the trees, the data of the
file, the keys. So the blocks in use are at all times those of the records in the table, and
`cleanup_dns_records` leaves none of them (`lifetime_gives_all_back`).

The table in memory is at all times that of a store which the commands make in the model of
the store.
-/

set_option autoImplicit false

namespace DnsServer

open Libc Heap

namespace InMemory

variable {owned : Multiset Block}

/-! ## Trees -/

mutual

/-- The blocks of a node with its key: its own, its texts, and those of its children. -/
def nodeBlocks (key : Option (Pointer CString)) : Node → Multiset Block
  | .null block | .bool block _ | .number block _ => {block} + behind key
  | .string block valuestring => {block} + behind key + {valuestring.block}
  | .array block items => {block} + behind key + itemsBlocks items
  | .object block members => {block} + behind key + membersBlocks members

def itemsBlocks : List Node → Multiset Block
  | [] => 0
  | item :: items => itemsBlocks items + nodeBlocks none item

def membersBlocks : List (Pointer CString × Node) → Multiset Block
  | [] => 0
  | (key, item) :: members => membersBlocks members + nodeBlocks (some key) item

end

/-- The blocks of a tree, if there is one. -/
def treeBlocks : Option Node → Multiset Block
  | none => 0
  | some item => nodeBlocks none item

/-- A node without children and texts. -/
theorem follows_deleteLeaf (block : Block) (key : Option (Pointer CString)) :
    Follows (owned + ({block} + behind key)) (do free key; release block) (pure () : Alloc Unit)
      fun _ _ left => left = owned := by
  rw [← add_assoc]
  exact (follows_free key).gives (follows_release block)

mutual

/-- **`cJSON_Delete` gives a tree back whole.** -/
theorem follows_deleteNode (owned : Multiset Block) (key : Option (Pointer CString)) :
    (node : Node) → Follows (owned + nodeBlocks key node) (deleteNode key node)
      (pure () : Alloc Unit) fun _ _ left => left = owned
  | .null block | .bool block _ | .number block _ => by
      rw [nodeBlocks, deleteNode]
      exact follows_deleteLeaf block key
  | .string block valuestring => by
      rw [nodeBlocks, deleteNode, ← add_assoc]
      exact (follows_release valuestring.block).gives (follows_deleteLeaf block key)
  | .array block items => by
      rw [nodeBlocks, deleteNode, ← add_assoc]
      exact (follows_deleteItems _ items).gives (follows_deleteLeaf block key)
  | .object block members => by
      rw [nodeBlocks, deleteNode, ← add_assoc]
      exact (follows_deleteMembers _ members).gives (follows_deleteLeaf block key)

theorem follows_deleteItems (owned : Multiset Block) : (items : List Node) →
    Follows (owned + itemsBlocks items) (deleteItems items) (pure () : Alloc Unit)
      fun _ _ left => left = owned
  | [] => follows_pure (add_zero owned)
  | item :: items => by
      rw [itemsBlocks, deleteItems, ← add_assoc]
      exact (follows_deleteNode _ none item).gives (follows_deleteItems owned items)

theorem follows_deleteMembers (owned : Multiset Block) : (members : List (Pointer CString × Node)) →
    Follows (owned + membersBlocks members) (deleteMembers members) (pure () : Alloc Unit)
      fun _ _ left => left = owned
  | [] => follows_pure (add_zero owned)
  | (key, item) :: members => by
      rw [membersBlocks, deleteMembers, ← add_assoc]
      exact (follows_deleteNode _ (some key) item).gives (follows_deleteMembers owned members)

end

/-- An item that does not get its key is given back, one that gets it stands last. -/
inductive Added (owned : Multiset Block) (members : List (Pointer CString × Node)) (name : CString)
    (item : Node) : Bool → Option (List (Pointer CString × Node)) → Multiset Block → Prop where
  | refused : Added owned members name item false none owned
  | added (block : Block) : Added owned members name item true
      (some (members ++ [(⟨block, name⟩, item)])) (owned + nodeBlocks none item + {block})

/-- An insertion keeps the sizes of the arrays. -/
theorem Inserted.sized {table after : Store} {built : Option DnsServer.DNSRecord}
    {left : Multiset Block} (inserted : Inserted table built after left)
    (sized : ∀ record ∈ table, record.fields.Sized) : ∀ record ∈ after, record.fields.Sized := by
  intro record member
  cases inserted with
  | kept => exact sized record member
  | replaced new shows =>
      rcases KeyedTable.mem_replace_iff.mp member with ⟨stayed, _⟩ | rfl
      · exact sized record stayed
      · rw [shows]
        exact sized_ofRecord _

/-- The parser returns a node that shows its tree, whose blocks are then in use, or `NULL` for
want of memory, and then it has given back what it allocated. -/
def Parses (parse : CString → Heap (Option Node)) (tree : CString → Option CJSON) : Prop :=
  ∀ text owned, Returns owned (parse text) fun json left =>
    (json = none ∨ json.map Node.tree = tree text) ∧ left = owned + treeBlocks json

variable {parse : CString → Heap (Option Node)} {tree : CString → Option CJSON}

/-- An allocation that succeeds. -/
def grab : Heap Block := fun memory => .ok (memory.next, memory.take)

theorem returns_grab : Returns owned grab fun block left => left = owned + {block} :=
  fun others memory uses => ⟨memory.next, owned + {memory.next}, memory.take, rfl,
    by rw [memory.blocks_take, uses, add_assoc], rfl⟩

mutual

/-- A node for a tree, with its children. -/
def placeNode : CJSON → Heap Node
  | .null => Node.null <$> grab
  | .bool value => (Node.bool · value) <$> grab
  | .number valueint => (Node.number · valueint) <$> grab
  | .string valuestring => do
    let block ← grab
    let text ← grab
    return .string block ⟨text, valuestring⟩
  | .array items => do
    let block ← grab
    let items ← placeItems items
    return .array block items
  | .object members => do
    let block ← grab
    let members ← placeMembers members
    return .object block members

def placeItems : List CJSON → Heap (List Node)
  | [] => return []
  | item :: items => do
    let item ← placeNode item
    let items ← placeItems items
    return item :: items

def placeMembers : List (CString × CJSON) → Heap (List (Pointer CString × Node))
  | [] => return []
  | (key, item) :: members => do
    let text ← grab
    let item ← placeNode item
    let members ← placeMembers members
    return (⟨text, key⟩, item) :: members

end

/-- The blocks of a node with a key are its own, and the one of the key. -/
theorem nodeBlocks_some (key : Pointer CString) (node : Node) :
    nodeBlocks (some key) node = nodeBlocks none node + {key.block} := by
  cases node <;> simp only [nodeBlocks, behind_none, behind_some, add_zero] <;> abel

theorem returns_placeLeaf {tree : CJSON} (make : Block → Node)
    (shows : ∀ block, (make block).tree = tree)
    (own : ∀ block, nodeBlocks none (make block) = {block} + behind (none : Option (Pointer CString))) :
    Returns owned (make <$> grab) fun node left =>
      node.tree = tree ∧ left = owned + nodeBlocks none node := by
  refine returns_grab.bind fun block left same => returns_pure ⟨shows block, ?_⟩
  rw [same, own, behind_none, add_zero]

mutual

theorem returns_placeNode (owned : Multiset Block) : (tree : CJSON) →
    Returns owned (placeNode tree) fun node left =>
      node.tree = tree ∧ left = owned + nodeBlocks none node
  | .null => by
      rw [placeNode]
      exact returns_placeLeaf Node.null (fun _ => rfl) fun _ => rfl
  | .bool value => by
      rw [placeNode]
      exact returns_placeLeaf (Node.bool · value) (fun _ => rfl) fun _ => rfl
  | .number valueint => by
      rw [placeNode]
      exact returns_placeLeaf (Node.number · valueint) (fun _ => rfl) fun _ => rfl
  | .string valuestring => by
      rw [placeNode]
      refine returns_grab.bind fun block left same => ?_
      refine returns_grab.bind fun text after more => returns_pure ⟨rfl, ?_⟩
      rw [more, same, nodeBlocks, behind_none, add_zero, add_assoc]
  | .array items => by
      rw [placeNode]
      refine returns_grab.bind fun block left same => ?_
      refine (returns_placeItems left items).bind fun nodes after placed => returns_pure ⟨?_, ?_⟩
      · rw [Node.tree, placed.1]
      · rw [placed.2, same, nodeBlocks, behind_none, add_zero, add_assoc]
  | .object members => by
      rw [placeNode]
      refine returns_grab.bind fun block left same => ?_
      refine (returns_placeMembers left members).bind fun nodes after placed => returns_pure ⟨?_, ?_⟩
      · rw [Node.tree, placed.1]
      · rw [placed.2, same, nodeBlocks, behind_none, add_zero, add_assoc]

theorem returns_placeItems (owned : Multiset Block) : (items : List CJSON) →
    Returns owned (placeItems items) fun nodes left =>
      itemTrees nodes = items ∧ left = owned + itemsBlocks nodes
  | [] => returns_pure ⟨rfl, (add_zero owned).symm⟩
  | item :: items => by
      rw [placeItems]
      refine (returns_placeNode owned item).bind fun node left first => ?_
      refine (returns_placeItems left items).bind fun nodes after rest => returns_pure ⟨?_, ?_⟩
      · rw [itemTrees, first.1, rest.1]
      · rw [rest.2, first.2, itemsBlocks]
        abel

theorem returns_placeMembers (owned : Multiset Block) : (members : List (CString × CJSON)) →
    Returns owned (placeMembers members) fun nodes left =>
      memberTrees nodes = members ∧ left = owned + membersBlocks nodes
  | [] => returns_pure ⟨rfl, (add_zero owned).symm⟩
  | (key, item) :: members => by
      rw [placeMembers]
      refine returns_grab.bind fun text first same => ?_
      refine (returns_placeNode first item).bind fun node left placed => ?_
      refine (returns_placeMembers left members).bind fun nodes after rest => returns_pure ⟨?_, ?_⟩
      · rw [memberTrees, placed.1, rest.1]
      · rw [rest.2, placed.2, same, membersBlocks, nodeBlocks_some]
        abel

end

end InMemory

end DnsServer
