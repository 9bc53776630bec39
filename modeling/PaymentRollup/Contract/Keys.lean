import PaymentRollup.Contract.Settlement
import PaymentRollup.Rollup.Ownership

/-! # No account is ever rekeyed

Accounts are created under their own address and no write changes their owner, so the key that
may ask L1 for an account is the key that may take it out of a frozen rollup.
-/
namespace PaymentRollup.Contract

section Owned
variable {S S' : AccountMap}

theorem emptyLedger_owned : emptyLedger.Owned := by
  intro address account haccount
  cases haccount

theorem replayBatches_owned {batches : List Batch} {lists : List (List Payout)}
    (h : replayBatches S batches = some (S', lists)) (hS : S.Owned) : S'.Owned :=
  (replay_rewrites (replayBatches_flat h)).owned hS

variable [Crypto]

theorem accepted_replays {Q : Set Bytes} (hQ : Ideal Q) {root : Word} {log : List Settled}
    (h : Accepted Q root log) : ∃ S lists,
      replayBatches emptyLedger (log.map Settled.batch) = some (S, lists) ∧
        (treeOf S).root = root ∧ (treeOf S).strings ⊆ Q := by
  induction h with
  | genesis =>
    refine ⟨emptyLedger, [], rfl, ?_, ?_⟩
    · unfold emptyLedger
      rw [treeOf_none]
      rfl
    · unfold emptyLedger
      rw [treeOf_none]
      exact Set.empty_subset Q
  | batch _ hsub hok ih =>
    obtain ⟨S, lists, hreplays, rfl, hS⟩ := ih
    obtain ⟨S', hreplay, hroot, hstrings, -⟩ := verifyBatch_sound hQ hS hsub hok
    rw [List.map_append, List.map_singleton]
    exact ⟨S', _, replayBatches_concat hreplays hreplay, hroot.symm, hstrings⟩

end Owned

section Checks
variable [Crypto]

/-- The two asserts on a signer's key: its scheme, and the address it has to derive. -/
def checkKey (message : String) (scheme : Bytes) (pubKey : Word) (derived : Address) :
    Except Reject Unit := do
  assert (scheme = schemeEd25519) "unsupported signature scheme"
  assert (sha256 (keyString scheme pubKey) = derived) message

/-- What `requestWithdrawal` asks of a key, given the account's address. -/
def requestKeyCheck : Bytes → Word → Address → Except Reject Unit :=
  checkKey "the key does not derive this account"

/-- What `forceExit` asks of a key, given the authorizing address in the leaf. -/
def exitKeyCheck : Bytes → Word → Address → Except Reject Unit :=
  checkKey "the key does not control this account"

variable {scheme : Bytes} {pubKey : Word}

theorem checkKey_eq_ok {message : String} {derived : Address} {u : Unit} :
    checkKey message scheme pubKey derived = .ok u ↔
      scheme = schemeEd25519 ∧ sha256 (keyString scheme pubKey) = derived := by
  simp only [checkKey, bind_eq_ok, assert_eq_ok, exists_const]

variable {app : App} {env : Env} {s s' : State}

theorem request_checked {payment : PaymentTxn} {nonce : UInt64} {address : Address}
    {recipient : L1Address} {signature : Bytes}
    (hok : exec app env s (.requestWithdrawal payment nonce address recipient scheme pubKey
      signature) = .ok s') : requestKeyCheck scheme pubKey address = .ok () := by
  cases exec_effect hok with
  | inert hcall => exact hcall.elim
  | prune _ hcall => simp at hcall
  | escape _ _ _ hcall => simp at hcall
  | request _ _ _ hkey => exact checkKey_eq_ok.mpr ⟨rfl, hkey⟩

theorem exit_checked {address : Address} {nonce amount : UInt64} {authAddress : Address}
    {signature : Bytes} {recipient : L1Address} {siblings : Bytes}
    (hok : exec app env s (.forceExit address nonce amount authAddress scheme pubKey signature
      recipient siblings) = .ok s') : exitKeyCheck scheme pubKey authAddress = .ok () := by
  cases exec_effect hok with
  | inert hcall => exact hcall.elim
  | prune _ hcall => simp at hcall
  | escape _ _ _ hcall => simp at hcall
  | exit _ _ hkey => exact checkKey_eq_ok.mpr ⟨rfl, hkey⟩

end Checks

section Results
variable [Crypto]

/-- Every account of a reachable ledger is authorized by its own address; so in every settled
state the key that a request for an account is checked against is the key that its forced exit
is checked against, and no call with another key goes through. -/
theorem no_account_is_rekeyed {Q : Set Bytes} (hQ : Ideal Q) :
    (∀ root log, Accepted Q root log → ∃ S lists,
      replayBatches emptyLedger (log.map Settled.batch) = some (S, lists) ∧
        (treeOf S).root = root ∧ S.Owned) ∧
    (∀ {app usize guest funds round s log}, Run app funds round s log →
      (∀ e ∈ log, e.Sound app usize guest Q) →
      ∃ batches S lists, (settledBatches log).mapM (Batch.decode usize) = .ok batches ∧
        replayBatches emptyLedger batches = some (S, lists) ∧ s.stateRoot = (treeOf S).root ∧
        ∀ address account, S address = some account → account.authAddress = address ∧
          ∀ scheme pubKey, requestKeyCheck scheme pubKey address = .ok () ↔
            exitKeyCheck scheme pubKey account.authAddress = .ok ()) ∧
    ∀ {app env s s' scheme pubKey},
      (∀ payment nonce address recipient signature,
        exec app env s (.requestWithdrawal payment nonce address recipient scheme pubKey
          signature) = .ok s' → requestKeyCheck scheme pubKey address = .ok ()) ∧
      (∀ address nonce amount authAddress signature recipient siblings,
        exec app env s (.forceExit address nonce amount authAddress scheme pubKey signature
          recipient siblings) = .ok s' → exitKeyCheck scheme pubKey authAddress = .ok ()) := by
  refine ⟨?_, ?_, ?_⟩
  · intro root log h
    obtain ⟨S, lists, hreplays, hroot, -⟩ := accepted_replays hQ h
    exact ⟨S, lists, hreplays, hroot, replayBatches_owned hreplays emptyLedger_owned⟩
  · intro app usize guest funds round s log hrun hlog
    obtain ⟨S, batches, lists, owed, h⟩ := hrun.ledgered hQ hlog
    refine ⟨batches, S, lists, h.decoded, h.replayed, h.root, ?_⟩
    intro address account haccount
    have howner := replayBatches_owned h.replayed emptyLedger_owned address account haccount
    refine ⟨howner, ?_⟩
    intro scheme pubKey
    rw [howner, requestKeyCheck, exitKeyCheck, checkKey_eq_ok, checkKey_eq_ok]
  · intro app env s s' scheme pubKey
    constructor
    · intro payment nonce address recipient signature hok
      exact request_checked hok
    · intro address nonce amount authAddress signature recipient siblings hok
      exact exit_checked hok

end Results

section Sample
attribute [local instance] Crypto.unsigned

theorem sample_not_rekeyed : ∃ batches S lists,
    (settledBatches sampleEnd.2).mapM (Batch.decode (2 ^ 32)) = .ok batches ∧
      replayBatches emptyLedger batches = some (S, lists) ∧
      sampleEnd.1.stateRoot = (treeOf S).root ∧
      ∀ address account, S address = some account → account.authAddress = address ∧
        ∀ scheme pubKey, requestKeyCheck scheme pubKey address = .ok () ↔
          exitKeyCheck scheme pubKey account.authAddress = .ok () :=
  (no_account_is_rekeyed sample_ideal).2.1 sample_run sample_sound

end Sample

end PaymentRollup.Contract
