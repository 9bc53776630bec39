import PaymentRollup.Rollup.Transaction

/-! # The sparse Merkle tree over account state

The prover's side keeps a tree with a cached hash at every branch; the verifier's side
recomputes roots from a path. In-place mutation is a function to the new node.
-/
namespace PaymentRollup

/-- Longest path the tree can produce: `DEPTH`. -/
def maxDepth : ℕ := 256

def emptySubtree : Word := Word.zero

section Paths

/-- The bit of `address` that decides which way to go at `depth`, most significant first. -/
def bitAt (address : Address) (depth : ℕ) : ℕ :=
  ((address.bytes.getD (depth / 8) 0 >>> UInt8.ofNat (7 - depth % 8)) &&& 1).toNat

/-- `u8::leading_zeros`. -/
def leadingZeros (x : UInt8) : ℕ :=
  ((List.range 8).takeWhile fun i => !x.toNat.testBit (7 - i)).length

def commonPrefixFrom : ℕ → Bytes → Bytes → ℕ
  | index, x :: xs, y :: ys =>
    if x ≠ y then index * 8 + leadingZeros (x ^^^ y) else commonPrefixFrom (index + 1) xs ys
  | _, _, _ => maxDepth

def commonPrefixLen (a b : Address) : ℕ := commonPrefixFrom 0 a.bytes b.bytes

end Paths

variable [Crypto]

def leafString (address : Address) (account : Account) : Bytes :=
  ascii ['L', 'E', 'A', 'F'] ++ address.bytes ++ account.encode

def nodeString (left right : Word) : Bytes :=
  ascii ['N', 'O', 'D', 'E'] ++ left.bytes ++ right.bytes

def leafHash (address : Address) (account : Account) : Word := sha256 (leafString address account)

def nodeHash (left right : Word) : Word := sha256 (nodeString left right)

inductive Node where
  | empty
  | leaf (address : Address) (account : Account)
  | branch (hash : Word) (left right : Node)
deriving DecidableEq

namespace Node

def hash : Node → Word
  | .empty => emptySubtree
  | .leaf address account => leafHash address account
  | .branch hash _ _ => hash

/-- `Node::branch`, and `Branch::rehash` of a branch over the same children. -/
def ofChildren (left right : Node) : Node := .branch (nodeHash left.hash right.hash) left right

def collapse : Node → Node
  | .branch _ .empty .empty => .empty
  | .branch _ (.leaf address account) .empty => .leaf address account
  | .branch _ .empty (.leaf address account) => .leaf address account
  | node => node

/-- A subtree at `depth` holding exactly `a` and `b`. -/
def split (depth : ℕ) (a b : Address × Account) : Node :=
  let splitDepth := commonPrefixLen a.1 b.1
  let aLeaf := Node.leaf a.1 a.2
  let bLeaf := Node.leaf b.1 b.2
  let node := if bitAt a.1 splitDepth = 0 then ofChildren aLeaf bLeaf else ofChildren bLeaf aLeaf
  (List.range' depth (splitDepth - depth)).reverse.foldl
    (fun node level =>
      if bitAt a.1 level = 0 then ofChildren node .empty else ofChildren .empty node) node

def insert : ℕ → Address → Account → Node → Node
  | _, address, account, .empty => .leaf address account
  | depth, address, account, .leaf held heldAccount =>
    if held = address then .leaf held account
    else split depth (held, heldAccount) (address, account)
  | depth, address, account, .branch _ left right =>
    if bitAt address depth = 0 then ofChildren (insert (depth + 1) address account left) right
    else ofChildren left (insert (depth + 1) address account right)

def remove : ℕ → Address → Node → Node
  | _, _, .empty => .empty
  | _, address, .leaf held account => if held = address then .empty else .leaf held account
  | depth, address, .branch _ left right =>
    if bitAt address depth = 0 then collapse (ofChildren (remove (depth + 1) address left) right)
    else collapse (ofChildren left (remove (depth + 1) address right))

/-- The siblings passed on the way to `address`, root first, and what the path runs into. -/
def prove : ℕ → Address → Node → List Word × Slot
  | _, _, .empty => ([], .own)
  | _, address, .leaf held account =>
    ([], if held = address then .own else .neighbor held account)
  | depth, address, .branch _ left right =>
    if bitAt address depth = 0 then
      let (siblings, slot) := prove (depth + 1) address left
      (right.hash :: siblings, slot)
    else
      let (siblings, slot) := prove (depth + 1) address right
      (left.hash :: siblings, slot)

end Node

structure SparseMerkleTree where
  node : Node
deriving DecidableEq

namespace SparseMerkleTree

def new : SparseMerkleTree := ⟨.empty⟩

def root (t : SparseMerkleTree) : Word := t.node.hash

/-- Write `account` into the slot for `address`, or clear the slot when it is `none`. -/
def update (t : SparseMerkleTree) (address : Address) : Option Account → SparseMerkleTree
  | some account => ⟨t.node.insert 0 address account⟩
  | none => ⟨t.node.remove 0 address⟩

def proof (t : SparseMerkleTree) (address : Address) : MerkleProof :=
  let (siblings, slot) := t.node.prove 0 address
  ⟨siblings, slot⟩

end SparseMerkleTree

/-- A neighbor is a different address that descends alongside `address` as far as `depth`. -/
def checkNeighbor (address neighbor : Address) (depth : ℕ) : Option Unit :=
  if neighbor ≠ address ∧ depth ≤ commonPrefixLen address neighbor then some () else none

/-- Hash of the subtree at `depth` once `address` moves in beside its neighbor. -/
def subtreeWithBoth (depth : ℕ) (own other : Address × Account) : Word :=
  let splitDepth := commonPrefixLen own.1 other.1
  let ownHash := leafHash own.1 own.2
  let otherHash := leafHash other.1 other.2
  let current :=
    if bitAt own.1 splitDepth = 0 then nodeHash ownHash otherHash else nodeHash otherHash ownHash
  (List.range' depth (splitDepth - depth)).reverse.foldl
    (fun current level =>
      if bitAt own.1 level = 0 then nodeHash current emptySubtree
      else nodeHash emptySubtree current) current

/-- The root implied by `account` in the slot for `address`, or `none` if `proof` is malformed. -/
def rootFromProof (address : Address) (account : Option Account) (proof : MerkleProof) :
    Option Word := do
  let depth := proof.siblings.length
  if depth > maxDepth then none else
  let current ← match proof.slot, account with
    | .own, none => some emptySubtree
    | .own, some account => some (leafHash address account)
    | .neighbor neighbor held, none => do
      checkNeighbor address neighbor depth
      some (leafHash neighbor held)
    | .neighbor neighbor held, some account => do
      checkNeighbor address neighbor depth
      some (subtreeWithBoth depth (address, account) (neighbor, held))
  some ((List.range depth).reverse.foldl
    (fun current level =>
      let sibling := proof.siblings.getD level emptySubtree
      if bitAt address level = 0 then nodeHash current sibling else nodeHash sibling current)
    current)

def verifyProof (root : Word) (address : Address) (account : Option Account)
    (proof : MerkleProof) : Bool :=
  rootFromProof address account proof = some root

end PaymentRollup
