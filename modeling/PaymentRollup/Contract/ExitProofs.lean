import PaymentRollup.Contract.Exits
import PaymentRollup.Contract.Playing
import PaymentRollup.Rollup.MerkleProofs

/-! # The contract's proof check is the crates'

One walks a flat string downwards with `getBit`, the other a list of siblings with shifts.
They accept the same paths, so an exit pays a leaf the frozen tree holds and every account
the tree holds can be proven.
-/
namespace PaymentRollup.Contract

section Siblings

theorem words_flatMap_inj {xs ys : List Word} (h : xs.flatMap Word.bytes = ys.flatMap Word.bytes) :
    xs = ys := by
  induction xs generalizing ys with
  | nil =>
    have hlength := congrArg List.length h
    rw [Reader.flatMap_bytes_length, Reader.flatMap_bytes_length, List.length_nil] at hlength
    exact (List.length_eq_zero_iff.mp (by omega)).symm
  | cons x xs ih =>
    cases ys with
    | nil =>
      have hlength := congrArg List.length h
      rw [Reader.flatMap_bytes_length, Reader.flatMap_bytes_length, List.length_cons,
        List.length_nil] at hlength
      omega
    | cons y ys =>
      obtain ⟨rfl, hrest⟩ := word_append_inj h
      rw [ih hrest]

theorem exitProof_bytes {siblings : Bytes} (h : siblings.length % 32 = 0) :
    (exitProof siblings).siblings.flatMap Word.bytes = siblings := by
  have hbytes : (exitProof siblings).siblings.map Word.bytes =
      (List.range (siblings.length / 32)).map fun i => (siblings.drop (i * 32)).take 32 := by
    rw [exitProof, List.map_map]
    refine List.map_congr_left fun level hlevel => ?_
    exact siblingWord_bytes (List.mem_range.mp hlevel)
  rw [List.flatMap_def, hbytes, Cutting.slices_flatten]
  apply List.take_of_length_le
  omega

theorem exitProof_flatMap (words : List Word) :
    exitProof (words.flatMap Word.bytes) = ⟨words, .own⟩ := by
  have hwhole : (words.flatMap Word.bytes).length % 32 = 0 := by
    rw [Reader.flatMap_bytes_length]
    exact Nat.mul_mod_left _ _
  exact congrArg (fun words => (⟨words, .own⟩ : MerkleProof))
    (words_flatMap_inj (exitProof_bytes hwhole))

end Siblings

section Checks
variable [Crypto]

/-- The Merkle part of `forceExit`. -/
def checkExit (stateRoot : Word) (address : Address) (nonce amount : UInt64)
    (authAddress : Address) (siblings : Bytes) : Except Reject Unit := do
  assert (siblings.length % 32 = 0) "the proof is not a whole number of siblings"
  assert (siblings.length / 32 ≤ maxProofDepth)
    "the proof is deeper than the address space allows"
  assert (exitRoot address nonce amount authAddress siblings = stateRoot)
    "the account does not prove against the settled root"

theorem forceExit_eq (app : App) (env : Env) (address : Address) (nonce amount : UInt64)
    (authAddress : Address) (scheme : Bytes) (pubKey : Word) (signature : Bytes)
    (recipient : L1Address) (siblings : Bytes) (s : State) :
    forceExit app env address nonce amount authAddress scheme pubKey signature recipient siblings s =
    (do
      assert s.escaped "the rollup has not escaped"
      assert (s.exits address = none) "this account has already exited"
      assert (scheme = schemeEd25519) "unsupported signature scheme"
      assert (sha256 (keyString scheme pubKey) = authAddress)
        "the key does not control this account"
      assert (Crypto.ed25519VerifyBare (exitMessage app address recipient) signature pubKey.bytes)
        "the exit is not signed by the account's key"
      checkExit s.stateRoot address nonce amount authAddress siblings
      assert (app.exitMbr < amount) "the balance does not cover the cost of recording the exit"
      let paid ← sub amount app.exitMbr
      State.pay app env { s with
        exits := Function.update s.exits address (some amount)
        minBalance := s.minBalance + app.exitMbr.toNat } recipient paid) := by
  simp only [forceExit, checkExit, bind_assoc]

theorem checkExit_eq_ok {stateRoot : Word} {address : Address} {nonce amount : UInt64}
    {authAddress : Address} {siblings : Bytes} {u : Unit} :
    checkExit stateRoot address nonce amount authAddress siblings = .ok u ↔
      siblings.length % 32 = 0 ∧ siblings.length / 32 ≤ maxProofDepth ∧
        exitRoot address nonce amount authAddress siblings = stateRoot := by
  simp only [checkExit, bind_eq_ok, assert_eq_ok, exists_and_left, exists_const]

/-- The contract accepts the siblings of exactly the inclusion proofs the crates accept. -/
theorem checkExit_iff {stateRoot : Word} {address : Address} {nonce amount : UInt64}
    {authAddress : Address} {siblings : Bytes} :
    checkExit stateRoot address nonce amount authAddress siblings = .ok () ↔
      ∃ words : List Word, words.flatMap Word.bytes = siblings ∧
        verifyProof stateRoot address (some ⟨nonce, amount, authAddress⟩) ⟨words, .own⟩ = true := by
  rw [checkExit_eq_ok]
  constructor
  · rintro ⟨hwhole, hdepth, hroot⟩
    refine ⟨(exitProof siblings).siblings, exitProof_bytes hwhole, ?_⟩
    have hproof := exitRoot_eq address nonce amount authAddress hdepth
    rw [hroot] at hproof
    exact decide_eq_true hproof
  · rintro ⟨words, rfl, hverify⟩
    have hlength := Reader.flatMap_bytes_length words
    have hdepth : (words.flatMap Word.bytes).length / 32 ≤ maxProofDepth := by
      obtain ⟨⟨hfits, -⟩, -⟩ := rootFromProof_eq_some.mp (of_decide_eq_true hverify)
      rw [hlength, Nat.mul_div_cancel _ (by omega)]
      exact hfits
    refine ⟨?_, hdepth, ?_⟩
    · rw [hlength]
      exact Nat.mul_mod_left _ _
    · have hproof := exitRoot_eq address nonce amount authAddress hdepth
      rw [exitProof_flatMap, of_decide_eq_true hverify] at hproof
      exact (Option.some.inj hproof).symm

theorem checkExit_proof {writes : List (Address × Option Account)} {address : Address}
    {account : Account} (h : accountsAfter (fun _ => none) writes address = some account) :
    checkExit (SparseMerkleTree.new.updates writes).root address account.nonce account.amount
      account.authAddress
      (((SparseMerkleTree.new.updates writes).proof address).siblings.flatMap Word.bytes) =
      .ok () := by
  have hholds := holds_updates writes
  have hroot := (Pins.read_write hholds (hholds.pins_proof address)).1
  rw [h] at hroot
  rw [checkExit_iff]
  refine ⟨_, rfl, ?_⟩
  rw [← proof_slot h]
  exact decide_eq_true hroot

end Checks

section Exits
variable [Crypto] {app : App} {env : Env} {s s' : State} {log : Log} {funds : ℕ} {round : UInt64}

/-- The account a call takes out of the rollup. -/
def Call.exits? : Call → Option Address
  | .forceExit address _ _ _ _ _ _ _ _ => some address
  | _ => none

/-- The accounts that left, last first. -/
def exited (log : Log) : List Address := log.filterMap fun e => e.call.exits?

theorem Effect.exits {call : Call} (h : Effect app env s call s') :
    (call.exits? = none ∧ s'.exits = s.exits) ∨
      ∃ address amount, call.exits? = some address ∧ s.exits address = none ∧
        s'.exits = Function.update s.exits address (some amount) := by
  cases h with
  | inert hcall =>
    left
    cases call <;> first | exact ⟨rfl, rfl⟩ | exact hcall.elim
  | prune hbox hcall =>
    left
    rcases hcall with ⟨rfl, -⟩ | ⟨rfl, -⟩ <;> exact ⟨rfl, rfl⟩
  | escape dropped hdropped hlive hcall =>
    left
    constructor
    · rcases hcall with ⟨rfl, -⟩ | ⟨rfl, -⟩ <;> rfl
    · subst hdropped
      split_ifs <;> rfl
  | exit hescaped hfresh =>
    right
    exact ⟨_, _, rfl, hfresh, rfl⟩
  | _ =>
    left
    exact ⟨rfl, rfl⟩

/-- Who left has a record, so nobody leaves twice. -/
theorem Run.exited (hrun : Run app funds round s log) :
    (∀ address ∈ exited log, s.exits address ≠ none) ∧ (exited log).Nodup := by
  induction hrun with
  | create =>
    constructor
    · intro address hmem
      cases hmem
    · exact List.nodup_nil
  | call hrun env call hround hok ih =>
    obtain ⟨hrecorded, hnodup⟩ := ih
    rcases (exec_effect hok).exits with ⟨hquiet, hsame⟩ | ⟨address, amount, hexit, hfresh, hupdate⟩
    · have hlog : ∀ e : Step, e.call = call → ∀ log, Contract.exited (e :: log) = Contract.exited log :=
        fun e he log => List.filterMap_cons_none (he ▸ hquiet)
      rw [hlog _ rfl, hsame]
      exact ⟨hrecorded, hnodup⟩
    · have hlog : ∀ e : Step, e.call = call → ∀ log,
          Contract.exited (e :: log) = address :: Contract.exited log :=
        fun e he log => List.filterMap_cons_some (he ▸ hexit)
      rw [hlog _ rfl, hupdate]
      constructor
      · intro other hother
        by_cases heq : other = address
        · rw [heq, Function.update_self]
          exact Option.some_ne_none _
        · rw [Function.update_of_ne heq]
          exact hrecorded other ((List.mem_cons.mp hother).resolve_left heq)
      · refine List.nodup_cons.mpr ⟨fun hmem => ?_, hnodup⟩
        exact hrecorded address hmem hfresh

theorem forceExit_pays {writes : List (Address × Option Account)} {address : Address}
    {nonce amount : UInt64} {authAddress : Address} {scheme : Bytes} {pubKey : Word}
    {signature : Bytes} {recipient : L1Address} {siblings : Bytes}
    (hroot : s.stateRoot = (SparseMerkleTree.new.updates writes).root)
    (hideal : Ideal ((SparseMerkleTree.new.updates writes).strings ∪
      rootStrings address (some ⟨nonce, amount, authAddress⟩) (exitProof siblings)))
    (hok : forceExit app env address nonce amount authAddress scheme pubKey signature recipient
      siblings s = .ok s') :
    accountsAfter (fun _ => none) writes address = some ⟨nonce, amount, authAddress⟩ ∧
    ∃ paid : UInt64, amount.toNat = paid.toNat + app.exitMbr.toNat ∧
      State.pay app env { s with
        exits := Function.update s.exits address (some amount)
        minBalance := s.minBalance + app.exitMbr.toNat } recipient paid = .ok s' := by
  have hholds := holds_updates writes
  rw [hholds.eq_treeOf] at hroot hideal
  rw [forceExit_eq] at hok
  simp only [bind_eq_ok, assert_eq_ok, checkExit_eq_ok, sub_eq_ok] at hok
  obtain ⟨-, -, -, -, -, -, -, -, -, -, -, ⟨-, hdepth, hexit⟩, -, -, paid, hpaid, hpay⟩ := hok
  constructor
  · exact exit_account hideal Set.subset_union_left hdepth (hexit.trans hroot) Set.subset_union_right
  · exact ⟨paid, hpaid, hpay⟩

end Exits

section Results
variable [Crypto]

/-- The Merkle part of an exit is the crates' check of an inclusion proof. So against the root of
a tree an exit pays the leaf the tree holds less the cost of its record, no account leaves twice
in a run, and whoever the tree holds can prove it. -/
theorem exit_proof_is_the_crates (app : App) :
    (∀ (stateRoot : Word) (address : Address) (nonce amount : UInt64) (authAddress : Address)
        (siblings : Bytes),
      checkExit stateRoot address nonce amount authAddress siblings = .ok () ↔
        ∃ words : List Word, words.flatMap Word.bytes = siblings ∧
          verifyProof stateRoot address (some ⟨nonce, amount, authAddress⟩) ⟨words, .own⟩ = true) ∧
    (∀ (writes : List (Address × Option Account)) (env : Env) (s s' : State) (address : Address)
        (nonce amount : UInt64) (authAddress : Address) (scheme : Bytes) (pubKey : Word)
        (signature : Bytes) (recipient : L1Address) (siblings : Bytes),
      s.stateRoot = (SparseMerkleTree.new.updates writes).root →
      Ideal ((SparseMerkleTree.new.updates writes).strings ∪
        rootStrings address (some ⟨nonce, amount, authAddress⟩) (exitProof siblings)) →
      exec app env s (.forceExit address nonce amount authAddress scheme pubKey signature recipient
        siblings) = .ok s' →
      accountsAfter (fun _ => none) writes address = some ⟨nonce, amount, authAddress⟩ ∧
      ∃ paid : UInt64, amount.toNat = paid.toNat + app.exitMbr.toNat ∧
        State.pay app env { s with
          exits := Function.update s.exits address (some amount)
          minBalance := s.minBalance + app.exitMbr.toNat } recipient paid = .ok s') ∧
    (∀ (funds : ℕ) (round : UInt64) (s : State) (log : Log), Run app funds round s log →
      (exited log).Nodup) ∧
    ∀ (writes : List (Address × Option Account)) (address : Address) (account : Account),
      accountsAfter (fun _ => none) writes address = some account →
      checkExit (SparseMerkleTree.new.updates writes).root address account.nonce account.amount
        account.authAddress
        (((SparseMerkleTree.new.updates writes).proof address).siblings.flatMap Word.bytes) =
        .ok () := by
  refine ⟨?_, ?_, ?_, ?_⟩
  · intro stateRoot address nonce amount authAddress siblings
    exact checkExit_iff
  · intro writes env s s' address nonce amount authAddress scheme pubKey signature recipient
      siblings hroot hideal hok
    exact forceExit_pays hroot hideal hok
  · intro funds round s log hrun
    exact hrun.exited.2
  · intro writes address account hheld
    exact checkExit_proof hheld

end Results

section Sample
attribute [local instance] Crypto.leaver

def departingWrites : List (Address × Option Account) :=
  [(leaver, some ⟨0, 300000, leaver⟩), (asker, some ⟨1, 0, asker⟩)]

/-- The leaver's proof climbs past two empty subtrees from the account next to it; what is paid out
is its balance less the cost of the record. -/
theorem sample_leaves :
    let log : Log := leaverStep :: departed.2
    let tree := SparseMerkleTree.new.updates departingWrites
    (accountsAfter (fun _ => none) departingWrites leaver = some ⟨0, 300000, leaver⟩ ∧
      ∃ paid : UInt64, (300000 : UInt64).toNat = paid.toNat + samplePriced.exitMbr.toNat ∧
        State.pay samplePriced (sampleEnv (sampleAccount 9) 11) { departed.1 with
          exits := Function.update departed.1.exits leaver (some 300000)
          minBalance := departed.1.minBalance + samplePriced.exitMbr.toNat }
          (sampleAccount 8) paid = .ok leaverLeft) ∧
    (exited log = [leaver] ∧ (exited log).Nodup) ∧
    (tree.proof leaver).siblings = leaverSiblings ∧
    checkExit tree.root leaver 0 300000 leaver
      ((tree.proof leaver).siblings.flatMap Word.bytes) = .ok () := by
  intro log tree
  obtain ⟨-, hpays, honce, hproves⟩ := exit_proof_is_the_crates samplePriced
  have hchecked : (departed.1.stateRoot = tree.root ∧
        tree.strings ⊆ {string | string ∈ departingStrings} ∧
        rootStrings leaver (some ⟨0, 300000, leaver⟩)
          (exitProof (leaverSiblings.flatMap Word.bytes)) ⊆
            {string | string ∈ departingStrings}) ∧
      exited log = [leaver] ∧ (tree.proof leaver).siblings = leaverSiblings ∧
      accountsAfter (fun _ => none) departingWrites leaver = some ⟨0, 300000, leaver⟩ := by
    decide +kernel
  obtain ⟨⟨hroot, htree, hpath⟩, hexited, hsiblings, haccount⟩ := hchecked
  refine ⟨?_, ⟨hexited, ?_⟩, hsiblings, ?_⟩
  · exact hpays departingWrites _ departed.1 leaverLeft leaver 0 300000 leaver schemeEd25519
      leaverKey leaverSignature (sampleAccount 8) _ hroot
      (departing_ideal.mono (Set.union_subset htree hpath)) leaverLeft_ok
  · exact honce 100000 11 _ _ (departed_run.call _ leaverCall (by decide) leaverLeft_ok)
  · exact hproves departingWrites leaver ⟨0, 300000, leaver⟩ haccount

end Sample

end PaymentRollup.Contract
