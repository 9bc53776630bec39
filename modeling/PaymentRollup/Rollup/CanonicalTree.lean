import PaymentRollup.Rollup.MerkleWitness

/-! # The sparse Merkle tree is canonical

Whatever writes came before, the tree is the one compressed tree of the accounts they leave:
empty for none, a leaf for one, and a branch on the next bit for two or more. Splitting a
leaf and collapsing a branch are what keep it so.
-/
namespace PaymentRollup

def accountsAfter (S : AccountMap) (writes : List (Address × Option Account)) : AccountMap :=
  writes.foldl (fun S write => Function.update S write.1 write.2) S

def turning (S : AccountMap) (depth bit : ℕ) : AccountMap :=
  fun address => if bitAt address depth = bit then S address else none

theorem turning_zero (S : AccountMap) (depth : ℕ) :
    turning S depth 0 = PrefixTree.side addressPaths depth false S := by
  funext address
  simp only [turning, PrefixTree.side, bitAt_eq_zero]
  rfl

theorem turning_one (S : AccountMap) (depth : ℕ) :
    turning S depth 1 = PrefixTree.side addressPaths depth true S := by
  funext address
  have hbit : bitAt address depth = 1 ↔ addressBit address depth = true := by
    rw [bitAt_eq]
    cases addressBit address depth <;> simp
  simp only [turning, PrefixTree.side, hbit]
  rfl

theorem turning_ne_none {S : AccountMap} {depth bit : ℕ} {address : Address}
    (h : turning S depth bit address ≠ none) : bitAt address depth = bit ∧ S address ≠ none := by
  unfold turning at h
  split_ifs at h with hbit
  · exact ⟨hbit, h⟩
  · exact absurd rfl h

theorem turning_or (S : AccountMap) (depth : ℕ) (address : Address) (account : Account) :
    S address = some account ↔ turning S depth 0 address = some account ∨
      turning S depth 1 address = some account := by
  unfold turning
  rw [bitAt_eq]
  cases addressBit address depth <;> simp

section Shape
variable [Crypto]

def SparseMerkleTree.updates (t : SparseMerkleTree) (writes : List (Address × Option Account)) :
    SparseMerkleTree :=
  writes.foldl (fun t write => t.update write.1 write.2) t

namespace Node

omit [Crypto] in
/-- The leaves below a node, left to right. -/
def accounts : Node → List (Address × Account)
  | .empty => []
  | .leaf address account => [(address, account)]
  | .branch _ left right => left.accounts ++ right.accounts

omit [Crypto] in
def walk : List ℕ → Node → Option Node
  | [], n => some n
  | 0 :: rest, .branch _ left _ => walk rest left
  | 1 :: rest, .branch _ _ right => walk rest right
  | _ :: _, _ => none

/-- The compressed tree of `S`, seen from `depth`, with every hash that is cached in it. -/
def Canonical : ℕ → AccountMap → Node → Prop
  | _, S, .empty => ∀ address, S address = none
  | _, S, .leaf address account => S address = some account ∧ ∀ other, other ≠ address → S other = none
  | depth, S, .branch hash left right =>
    hash = nodeHash left.hash right.hash ∧ (∃ a b, a ≠ b ∧ S a ≠ none ∧ S b ≠ none) ∧
      Canonical (depth + 1) (turning S depth 0) left ∧
      Canonical (depth + 1) (turning S depth 1) right

theorem canonical_iff {depth : ℕ} {S : AccountMap} {n : Node} : n.Canonical depth S ↔
    n.Cached ∧ PrefixTree.Canonical addressPaths depth S n.erase := by
  induction n generalizing depth S with
  | empty => simp only [Canonical, Cached, erase, PrefixTree.Canonical, true_and]
  | leaf address account =>
    simp only [Canonical, Cached, erase, PrefixTree.Canonical, true_and]
  | branch hash left right ihl ihr =>
    simp only [Canonical, Cached, erase, PrefixTree.Canonical, ihl, ihr, turning_zero, turning_one]
    constructor
    · rintro ⟨hhash, htwo, ⟨hl, hl'⟩, hr, hr'⟩
      exact ⟨⟨hhash, hl, hr⟩, htwo, hl', hr'⟩
    · rintro ⟨⟨hhash, hl, hr⟩, htwo, hl', hr'⟩
      exact ⟨hhash, htwo, ⟨hl, hl'⟩, hr, hr'⟩

theorem Canonical.mem_accounts {depth : ℕ} {S : AccountMap} {n : Node} (h : n.Canonical depth S)
    (address : Address) (account : Account) :
    (address, account) ∈ n.accounts ↔ S address = some account := by
  induction n generalizing depth S with
  | empty => simp only [accounts, List.not_mem_nil, h address, reduceCtorEq]
  | leaf held heldAccount =>
    simp only [accounts, List.mem_singleton, Prod.mk.injEq]
    constructor
    · rintro ⟨rfl, rfl⟩
      exact h.1
    · intro hsome
      have heq : address = held := by
        by_contra hne
        cases hsome.symm.trans (h.2 address hne)
      subst heq
      exact ⟨rfl, Option.some.inj (hsome.symm.trans h.1)⟩
  | branch hash left right ihl ihr =>
    obtain ⟨-, -, hl, hr⟩ := h
    rw [accounts, List.mem_append, ihl hl, ihr hr, ← turning_or]

/-- What a walk through a canonical tree arrives at is canonical for the accounts of `S` that
turn as the path does. -/
theorem Canonical.walk {path : List ℕ} {depth : ℕ} {S : AccountMap} {n m : Node}
    (h : n.Canonical depth S) (hwalk : n.walk path = some m) :
    ∃ S', m.Canonical (depth + path.length) S' ∧ ∀ address, S' address ≠ none →
      S address ≠ none ∧ ∀ i (hi : i < path.length), path[i] = bitAt address (depth + i) := by
  induction path generalizing depth S n with
  | nil =>
    cases hwalk
    refine ⟨S, h, fun address hsome => ⟨hsome, ?_⟩⟩
    intro i hi
    cases hi
  | cons turn rest ih =>
    have hstep : ∀ {child : Node}, child.Canonical (depth + 1) (turning S depth turn) →
        child.walk rest = some m → ∃ S', m.Canonical (depth + (turn :: rest).length) S' ∧
          ∀ address, S' address ≠ none → S address ≠ none ∧
            ∀ i (hi : i < (turn :: rest).length), (turn :: rest)[i] = bitAt address (depth + i) := by
      intro child hchild hrest
      obtain ⟨S', hm, halong⟩ := ih hchild hrest
      refine ⟨S', ?_, ?_⟩
      · rwa [List.length_cons, Nat.add_comm rest.length, ← Nat.add_assoc]
      · intro address hsome
        obtain ⟨hturning, hbits⟩ := halong address hsome
        obtain ⟨hturn, hheld⟩ := turning_ne_none hturning
        constructor
        · exact hheld
        · intro i hi
          cases i with
          | zero => exact hturn.symm
          | succ i =>
            rw [List.getElem_cons_succ, hbits i (by simpa using hi), Nat.add_assoc, Nat.add_comm 1]
    cases n with
    | empty => simp only [Node.walk, reduceCtorEq] at hwalk
    | leaf address account => simp only [Node.walk, reduceCtorEq] at hwalk
    | branch hash left right =>
      obtain ⟨-, -, hl, hr⟩ := h
      match turn, hwalk with
      | 0, hwalk => exact hstep hl hwalk
      | 1, hwalk => exact hstep hr hwalk

end Node

/-- The shape of a tree that holds exactly the accounts `S`. -/
structure Shaped (t : SparseMerkleTree) (S : AccountMap) : Prop where
  canonical : t.node.Canonical 0 S
  only : ∀ n : Node, n.Canonical 0 S → n = t.node
  accounts : ∀ address account, (address, account) ∈ t.node.accounts ↔ S address = some account
  leaf : ∀ path address account, t.node.walk path = some (.leaf address account) →
    ∀ i (hi : i < path.length), path[i] = bitAt address i
  two : ∀ path hash left right, t.node.walk path = some (.branch hash left right) →
    ∃ a ∈ left.accounts ++ right.accounts, ∃ b ∈ left.accounts ++ right.accounts, a.1 ≠ b.1
  cached : ∀ path hash left right, t.node.walk path = some (.branch hash left right) →
    hash = nodeHash left.hash right.hash

end Shape

section Updates
variable [Crypto]

theorem Holds.updates {t : SparseMerkleTree} {S : AccountMap} (h : Holds t S)
    (writes : List (Address × Option Account)) :
    Holds (t.updates writes) (accountsAfter S writes) := by
  induction writes generalizing t S with
  | nil => exact h
  | cons write rest ih => exact ih (h.update write.1 write.2)

theorem holds_updates (writes : List (Address × Option Account)) :
    Holds (SparseMerkleTree.new.updates writes) (accountsAfter (fun _ => none) writes) :=
  Holds.new.updates writes

theorem Holds.shaped {t : SparseMerkleTree} {S : AccountMap} (h : Holds t S) : Shaped t S := by
  have hcanonical : t.node.Canonical 0 S := Node.canonical_iff.mpr h.shape
  constructor
  · exact hcanonical
  · intro n hn
    obtain ⟨hcached, hcanon⟩ := Node.canonical_iff.mp hn
    exact Node.erase_inj hcached h.shape.1 (PrefixTree.canonical_unique hcanon h.shape.2)
  · exact hcanonical.mem_accounts
  · intro path address account hwalk i hi
    obtain ⟨S', hleaf, halong⟩ := hcanonical.walk hwalk
    have hsome : S' address ≠ none := by simp [hleaf.1]
    rw [(halong address hsome).2 i hi, Nat.zero_add]
  · intro path hash left right hwalk
    obtain ⟨S', hbranch, -⟩ := hcanonical.walk hwalk
    obtain ⟨a, b, hab, ha, hb⟩ := hbranch.2.1
    obtain ⟨x, hx⟩ := Option.ne_none_iff_exists'.mp ha
    obtain ⟨y, hy⟩ := Option.ne_none_iff_exists'.mp hb
    exact ⟨(a, x), (hbranch.mem_accounts a x).mpr hx, (b, y), (hbranch.mem_accounts b y).mpr hy, hab⟩
  · intro path hash left right hwalk
    obtain ⟨S', hbranch, -⟩ := hcanonical.walk hwalk
    exact hbranch.1

end Updates

section Writes

@[simp] theorem accountsAfter_cons (S : AccountMap) (write : Address × Option Account)
    (rest : List (Address × Option Account)) :
    accountsAfter S (write :: rest) = accountsAfter (Function.update S write.1 write.2) rest := rfl

theorem accountsAfter_append (S : AccountMap) (xs ys : List (Address × Option Account)) :
    accountsAfter S (xs ++ ys) = accountsAfter (accountsAfter S xs) ys := List.foldl_append

theorem accountsAfter_of_notMem {S : AccountMap} {writes : List (Address × Option Account)}
    {a : Address} (h : a ∉ writes.map Prod.fst) : accountsAfter S writes a = S a := by
  induction writes generalizing S with
  | nil => rfl
  | cons write rest ih =>
    simp only [List.map_cons, List.mem_cons, not_or] at h
    rw [accountsAfter_cons, ih h.2, Function.update_of_ne h.1]

theorem accountsAfter_cleared {S : AccountMap} {cleared : List Address} {a : Address}
    (h : a ∈ cleared ∨ S a = none) : accountsAfter S (cleared.map fun a => (a, none)) a = none := by
  induction cleared generalizing S with
  | nil =>
    rcases h with hmem | hnone
    · cases hmem
    · exact hnone
  | cons b rest ih =>
    rw [List.map_cons, accountsAfter_cons]
    apply ih
    by_cases hab : a = b
    · right
      rw [hab, Function.update_self]
    · rw [Function.update_of_ne hab]
      exact h.imp_left fun hmem => (List.mem_cons.mp hmem).resolve_left hab

theorem accountsAfter_clear {S : AccountMap} {added : List (Address × Account)}
    {cleared : List Address} (hcleared : ∀ a, a ∈ cleared ↔ a ∈ added.map Prod.fst)
    (habsent : ∀ a ∈ cleared, S a = none) :
    accountsAfter S (added.map (fun e => (e.1, some e.2)) ++ cleared.map fun a => (a, none)) = S := by
  funext a
  rw [accountsAfter_append]
  by_cases ha : a ∈ cleared
  · rw [accountsAfter_cleared (.inl ha), habsent a ha]
  · rw [accountsAfter_of_notMem, accountsAfter_of_notMem]
    · simpa [Function.comp_def, ← hcleared] using ha
    · simpa [Function.comp_def] using ha

end Writes

section Results
variable [Crypto]

/-- After any writes the tree is the compressed tree of the accounts they leave. So what the
writes were and the order they came in leave no trace, and clearing what was added leads back. -/
theorem tree_is_canonical (writes : List (Address × Option Account)) :
    Shaped (SparseMerkleTree.new.updates writes) (accountsAfter (fun _ => none) writes) ∧
    (∀ writes', accountsAfter (fun _ => none) writes' = accountsAfter (fun _ => none) writes →
      SparseMerkleTree.new.updates writes' = SparseMerkleTree.new.updates writes ∧
      (SparseMerkleTree.new.updates writes').root = (SparseMerkleTree.new.updates writes).root) ∧
    ∀ (added : List (Address × Account)) (cleared : List Address),
      (∀ a, a ∈ cleared ↔ a ∈ added.map Prod.fst) →
      (∀ a ∈ cleared, accountsAfter (fun _ => none) writes a = none) →
      ((SparseMerkleTree.new.updates writes).updates
        (added.map (fun e => (e.1, some e.2)) ++ cleared.map fun a => (a, none))) =
        SparseMerkleTree.new.updates writes := by
  have hholds := holds_updates writes
  refine ⟨hholds.shaped, ?_, ?_⟩
  · intro writes' hsame
    have heq := (hsame ▸ holds_updates writes').unique hholds
    exact ⟨heq, congrArg SparseMerkleTree.root heq⟩
  · intro added cleared hcleared habsent
    have hback := hholds.updates
      (added.map (fun e => (e.1, some e.2)) ++ cleared.map fun a => (a, none))
    rw [accountsAfter_clear hcleared habsent] at hback
    exact hback.unique hholds

end Results

section Sample
attribute [local instance] Crypto.unsigned

/-- One account written twice, and another that comes and goes. -/
theorem sample_canonical : ∃ account : Account,
    Shaped (SparseMerkleTree.new.updates [(feeSink, some account)])
      (accountsAfter (fun _ => none) [(feeSink, some account)]) ∧
    SparseMerkleTree.new.updates [(feeSink, some (Account.empty feeSink)), (feeSink, some account)] =
      SparseMerkleTree.new.updates [(feeSink, some account)] ∧
    (SparseMerkleTree.new.updates [(feeSink, some account)]).updates
        [(zeroAddress, some account), (zeroAddress, none)] =
      SparseMerkleTree.new.updates [(feeSink, some account)] := by
  have hne : zeroAddress ≠ feeSink := by decide
  obtain ⟨hshaped, hsame, hback⟩ := tree_is_canonical [(feeSink, some ⟨1, 5, zeroAddress⟩)]
  refine ⟨⟨1, 5, zeroAddress⟩, hshaped, (hsame _ ?_).1, hback [(zeroAddress, _)] [zeroAddress] ?_ ?_⟩
  · simp only [accountsAfter_cons, Function.update_idem]
  · simp
  · simp [accountsAfter, hne]

end Sample

end PaymentRollup
