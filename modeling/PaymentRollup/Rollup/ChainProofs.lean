import PaymentRollup.Lib.Cutting
import PaymentRollup.Rollup.Chains

/-! # The chains determine what was folded into them

Tags and fixed widths make every preimage readable, so each fold of the repository is a
hash chain whose links cannot be confused with one another or with where it begins.
-/
namespace PaymentRollup

section Preimages

theorem depositString_inj {c c' : Word} {r r' : Address} {x x' : UInt64}
    (h : depositString c r x = depositString c' r' x') : c = c' ∧ r = r' ∧ x = x' := by
  simp only [depositString, List.append_assoc] at h
  obtain ⟨hc, h⟩ := word_append_inj (List.append_cancel_left h)
  obtain ⟨hr, hx⟩ := word_append_inj h
  exact ⟨hc, hr, toBeBytes_inj hx⟩

theorem requestString_inj {c c' : Word} {a a' : Address} {r r' : L1Address}
    (h : requestString c a r = requestString c' a' r') : c = c' ∧ a = a' ∧ r = r' := by
  simp only [requestString, List.append_assoc] at h
  obtain ⟨hc, h⟩ := word_append_inj (List.append_cancel_left h)
  obtain ⟨ha, hr⟩ := word_append_inj h
  exact ⟨hc, ha, word_inj hr⟩

theorem inboxString_inj : Function.Injective2 InboxItem.string := by
  intro c c' i i' h
  cases i with
  | deposit r x =>
    cases i' with
    | deposit r' x' =>
      obtain ⟨rfl, rfl, rfl⟩ := depositString_inj h
      exact ⟨rfl, rfl⟩
    | forcedWithdrawal a' r' =>
      simp only [InboxItem.string, depositString, requestString, List.append_assoc] at h
      exact absurd h (tag_ne rfl (by decide))
  | forcedWithdrawal a r =>
    cases i' with
    | deposit r' x' =>
      simp only [InboxItem.string, depositString, requestString, List.append_assoc] at h
      exact absurd h (tag_ne rfl (by decide))
    | forcedWithdrawal a' r' =>
      obtain ⟨rfl, rfl, rfl⟩ := requestString_inj h
      exact ⟨rfl, rfl⟩

theorem withdrawalString_inj {t t' : Word} {r r' : L1Address} {x x' : UInt64}
    (h : withdrawalString t r x = withdrawalString t' r' x') : t = t' ∧ r = r' ∧ x = x' := by
  simp only [withdrawalString, List.append_assoc] at h
  obtain ⟨ht, h⟩ := word_append_inj (List.append_cancel_left h)
  obtain ⟨hr, hx⟩ := word_append_inj h
  exact ⟨ht, hr, toBeBytes_inj hx⟩

theorem withdrawalString_ne_terminalString (t : Word) (r : L1Address) (x : UInt64)
    (d : DeploymentDomain) : withdrawalString t r x ≠ terminalString d := by
  simp only [withdrawalString, terminalString, List.append_assoc]
  exact tag_ne rfl (by decide)

theorem terminalString_inj {d d' : DeploymentDomain} (h : terminalString d = terminalString d') :
    d = d' := word_inj (List.append_cancel_left h)

theorem seedString_inj {d d' : DeploymentDomain} {n n' : UInt64}
    (h : seedString d n = seedString d' n') : d = d' ∧ n = n' := by
  simp only [seedString, List.append_assoc] at h
  obtain ⟨hd, hn⟩ := word_append_inj (List.append_cancel_left h)
  exact ⟨hd, toBeBytes_inj hn⟩

theorem chunkString_inj : Function.Injective2 chunkString := by
  intro a a' c c' h
  simp only [chunkString, List.append_assoc] at h
  obtain ⟨ha, hc⟩ := word_append_inj (List.append_cancel_left h)
  exact ⟨ha, word_inj hc⟩

theorem chunkString_ne_seedString (a c : Word) (d : DeploymentDomain) (n : UInt64) :
    chunkString a c ≠ seedString d n := by
  simp only [chunkString, seedString, List.append_assoc]
  exact tag_ne rfl (by decide)

end Preimages

theorem inboxItems_append (xs ys : List Transaction) :
    inboxItems (xs ++ ys) = inboxItems xs ++ inboxItems ys := List.filterMap_append

variable [Crypto]

section Inbox

theorem foldInbox_append (chain : Word) (xs ys : List InboxItem) :
    foldInbox chain (xs ++ ys) = foldInbox (foldInbox chain xs) ys := HashChain.fold_append ..

def inboxStrings (chain : Word) (items : List InboxItem) : Set Bytes :=
  HashChain.strings sha256 InboxItem.string chain items

theorem inboxStrings_append_subset {chain : Word} {xs ys : List InboxItem} {Q : Set Bytes} :
    inboxStrings chain (xs ++ ys) ⊆ Q ↔
      inboxStrings chain xs ⊆ Q ∧ inboxStrings (foldInbox chain xs) ys ⊆ Q :=
  HashChain.strings_append_subset

theorem inboxStrings_take_subset {chain : Word} {items : List InboxItem} {Q : Set Bytes}
    (h : inboxStrings chain items ⊆ Q) (n : ℕ) : inboxStrings chain (items.take n) ⊆ Q := by
  rw [← List.take_append_drop n items] at h
  exact (inboxStrings_append_subset.mp h).1

/-- No inbox entry leads back to where the chain starts. -/
theorem inbox_anchor {Q : Set Bytes} (hQ : Ideal Q) :
    HashChain.Anchor sha256 InboxItem.string Q inboxChainGenesis := fun _ _ h => hQ.ne_zero _ h

/-- The chain word pins the set, the order and the count of the entries. -/
theorem foldInbox_inj {Q : Set Bytes} (hQ : Ideal Q) {xs ys : List InboxItem}
    (hx : inboxStrings inboxChainGenesis xs ⊆ Q) (hy : inboxStrings inboxChainGenesis ys ⊆ Q)
    (h : foldInbox inboxChainGenesis xs = foldInbox inboxChainGenesis ys) : xs = ys :=
  (HashChain.fold_inj hQ.injOn inboxString_inj hx hy (inbox_anchor hQ) (inbox_anchor hQ) h).1

end Inbox

section Payouts

def payoutString (tail : Word) (payout : Payout) : Bytes :=
  withdrawalString tail payout.1 payout.2

omit [Crypto] in
theorem payoutString_inj : Function.Injective2 payoutString := by
  rintro t t' ⟨r, x⟩ ⟨r', x'⟩ h
  obtain ⟨rfl, rfl, rfl⟩ := withdrawalString_inj h
  exact ⟨rfl, rfl⟩

@[simp] theorem withdrawalChain_nil (domain : DeploymentDomain) :
    withdrawalChain domain [] = withdrawalChainTerminal domain := rfl

theorem withdrawalChain_cons (domain : DeploymentDomain) (payout : Payout)
    (rest : List Payout) : withdrawalChain domain (payout :: rest) =
      accumulateWithdrawal (withdrawalChain domain rest) payout.1 payout.2 := by
  simp only [withdrawalChain, List.reverse_cons, List.foldl_append, List.foldl_cons,
    List.foldl_nil]

def payoutStrings (domain : DeploymentDomain) (payouts : List Payout) : Set Bytes :=
  {terminalString domain} ∪
    HashChain.strings sha256 payoutString (withdrawalChainTerminal domain) payouts.reverse

theorem payoutStrings_subset {domain : DeploymentDomain} {payouts : List Payout} {Q : Set Bytes} :
    payoutStrings domain payouts ⊆ Q ↔ terminalString domain ∈ Q ∧
      HashChain.strings sha256 payoutString (withdrawalChainTerminal domain) payouts.reverse ⊆ Q := by
  simp only [payoutStrings, Set.union_subset_iff, Set.singleton_subset_iff]

theorem payoutStrings_cons_subset {domain : DeploymentDomain} {payout : Payout}
    {rest : List Payout} {Q : Set Bytes} : payoutStrings domain (payout :: rest) ⊆ Q ↔
      payoutStrings domain rest ⊆ Q ∧
        withdrawalString (withdrawalChain domain rest) payout.1 payout.2 ∈ Q := by
  simp only [payoutStrings_subset, List.reverse_cons, HashChain.strings_append_subset,
    HashChain.strings_cons_subset, HashChain.strings_nil_subset, and_true, and_assoc]
  rfl

theorem payoutStrings_suffix {domain : DeploymentDomain} {owed payouts : List Payout}
    {Q : Set Bytes} (h : owed <:+ payouts) (hpayouts : payoutStrings domain payouts ⊆ Q) :
    payoutStrings domain owed ⊆ Q := by
  obtain ⟨before, rfl⟩ := h
  induction before with
  | nil => exact hpayouts
  | cons payout rest ih => exact ih (payoutStrings_cons_subset.mp hpayouts).1

/-- A payout never links to the terminal from in front of it. -/
theorem payout_anchor {Q : Set Bytes} (hQ : Ideal Q) {domain : DeploymentDomain}
    (h : terminalString domain ∈ Q) :
    HashChain.Anchor sha256 payoutString Q (withdrawalChainTerminal domain) := by
  intro tail payout hmem heq
  exact withdrawalString_ne_terminalString _ _ _ _ (hQ.inj _ hmem _ h heq)

theorem withdrawalChain_inj {Q : Set Bytes} (hQ : Ideal Q) {d d' : DeploymentDomain}
    {xs ys : List Payout} (hx : payoutStrings d xs ⊆ Q) (hy : payoutStrings d' ys ⊆ Q)
    (h : withdrawalChain d xs = withdrawalChain d' ys) : xs = ys ∧ d = d' := by
  obtain ⟨hd, hx⟩ := payoutStrings_subset.mp hx
  obtain ⟨hd', hy⟩ := payoutStrings_subset.mp hy
  obtain ⟨hrev, hterm⟩ := HashChain.fold_inj hQ.injOn payoutString_inj hx hy
    (payout_anchor hQ hd) (payout_anchor hQ hd') h
  exact ⟨List.reverse_injective hrev, terminalString_inj (hQ.inj _ hd _ hd' hterm)⟩

theorem withdrawalChain_eq_terminal {Q : Set Bytes} (hQ : Ideal Q) {domain : DeploymentDomain}
    {payouts : List Payout} (h : payoutStrings domain payouts ⊆ Q) :
    withdrawalChain domain payouts = withdrawalChainTerminal domain ↔ payouts = [] := by
  constructor
  · intro heq
    have hnil : payoutStrings domain [] ⊆ Q :=
      payoutStrings_subset.mpr ⟨(payoutStrings_subset.mp h).1, HashChain.strings_nil_subset _⟩
    exact (withdrawalChain_inj hQ h hnil heq).1
  · rintro rfl
    rfl

theorem withdrawalLinks_cons (domain : DeploymentDomain) (payout : Payout)
    (rest : List Payout) : withdrawalLinks domain (payout :: rest) =
      ⟨payout.1, payout.2, withdrawalChain domain rest⟩ :: withdrawalLinks domain rest := by
  have hfold : ∀ (payouts : List Payout) (links : List WithdrawalLink) (tail : Word),
      (payouts.foldl (fun (acc : List WithdrawalLink × Word) (payout : Payout) =>
        (acc.1 ++ [⟨payout.1, payout.2, acc.2⟩], accumulateWithdrawal acc.2 payout.1 payout.2))
        (links, tail)).2 =
      payouts.foldl (fun tail payout => accumulateWithdrawal tail payout.1 payout.2) tail := by
    intro payouts
    induction payouts with
    | nil => exact fun _ _ => rfl
    | cons payout rest ih => exact fun _ _ => ih _ _
  simp only [withdrawalLinks, List.reverse_cons, List.foldl_append, List.foldl_cons,
    List.foldl_nil, List.reverse_append, List.reverse_nil, List.nil_append, List.singleton_append,
    List.cons.injEq, and_true, WithdrawalLink.mk.injEq, true_and]
  exact hfold _ _ _

@[simp] theorem withdrawalLinks_nil (domain : DeploymentDomain) : withdrawalLinks domain [] = [] :=
  rfl

theorem withdrawalLinks_length (domain : DeploymentDomain) (payouts : List Payout) :
    (withdrawalLinks domain payouts).length = payouts.length := by
  induction payouts with
  | nil => rfl
  | cons payout rest ih => simp only [withdrawalLinks_cons, List.length_cons, ih]

/-- The head under which payouts wait to be made: none once there are no more. -/
def pendingOf (domain : DeploymentDomain) (owed : List Payout) : Option Word :=
  if owed = [] then none else some (withdrawalChain domain owed)

end Payouts

section Chunks

omit [Crypto] in
theorem chunks_flatten (bytes : Bytes) : (chunks bytes).flatten = bytes := by
  rw [chunks, Cutting.slices_flatten]
  refine List.take_of_length_le ?_
  have hsize : 0 < chunkSize := by decide
  have hdiv := Nat.lt_div_mul_add hsize (a := bytes.length + chunkSize - 1)
  unfold chunkCount
  omega

omit [Crypto] in
/-- Every chunk but the last is full, and there is none after the last. -/
theorem chunks_next {bytes chunk : Bytes} {before after : List Bytes}
    (h : before ++ chunk :: after = chunks bytes) : before.flatten.length < bytes.length ∧
      chunk.length = min chunkSize (bytes.length - before.flatten.length) := by
  have hlt : before.length < chunkCount bytes.length := by
    have hlength := congrArg List.length h
    simp only [chunks, List.length_append, List.length_cons, List.length_map,
      List.length_range] at hlength
    omega
  have hchunk := congrArg (fun xs => xs[before.length]?) h
  simp only [List.getElem?_append_right le_rfl, Nat.sub_self, List.getElem?_cons_zero, chunks,
    List.getElem?_map, List.getElem?_range hlt, Option.map_some, Option.some.injEq] at hchunk
  have hbefore := congrArg (List.take before.length) h
  rw [List.take_left, chunks, ← List.map_take, List.take_range, min_eq_left hlt.le] at hbefore
  have hflat : before.flatten = bytes.take (before.length * chunkSize) := by
    rw [← Cutting.slices_flatten, ← hbefore]
  have hmul : before.length * chunkSize < bytes.length := by
    have hcount : before.length + 1 ≤ (bytes.length + chunkSize - 1) / chunkSize := hlt
    rw [Nat.le_div_iff_mul_le (by decide), Nat.succ_mul] at hcount
    have hsize : 0 < chunkSize := by decide
    omega
  rw [hflat, hchunk, List.length_take, List.length_take, List.length_drop, min_eq_left hmul.le]
  exact ⟨hmul, rfl⟩

/-- The commitment to chunks posted under a declared batch length. -/
def commitChunks (domain : DeploymentDomain) (batchLen : UInt64) (posted : List Bytes) : Word :=
  HashChain.fold sha256 chunkString (sha256 (seedString domain batchLen)) (posted.map chunkDigest)

theorem batchCommitment_eq (domain : DeploymentDomain) (bytes : Bytes) :
    batchCommitment domain bytes =
      commitChunks domain (UInt64.ofNat bytes.length) (chunks bytes) := by
  rw [commitChunks, HashChain.fold, List.foldl_map]
  rfl

theorem commitChunks_concat (domain : DeploymentDomain) (batchLen : UInt64)
    (posted : List Bytes) (chunk : Bytes) : commitChunks domain batchLen (posted ++ [chunk]) =
      accumulateChunk (commitChunks domain batchLen posted) (chunkDigest chunk) := by
  rw [commitChunks, List.map_append, List.map_singleton, HashChain.fold_concat]
  rfl

def commitStrings (domain : DeploymentDomain) (batchLen : UInt64) (posted : List Bytes) :
    Set Bytes :=
  {seedString domain batchLen} ∪ ({chunk | chunk ∈ posted} ∪
    HashChain.strings sha256 chunkString (sha256 (seedString domain batchLen))
      (posted.map chunkDigest))

theorem commitStrings_subset {domain : DeploymentDomain} {batchLen : UInt64}
    {posted : List Bytes} {Q : Set Bytes} : commitStrings domain batchLen posted ⊆ Q ↔
      seedString domain batchLen ∈ Q ∧ (∀ chunk ∈ posted, chunk ∈ Q) ∧
        HashChain.strings sha256 chunkString (sha256 (seedString domain batchLen))
          (posted.map chunkDigest) ⊆ Q := by
  simp only [commitStrings, Set.union_subset_iff, Set.singleton_subset_iff]
  rfl

theorem commitStrings_concat_subset {domain : DeploymentDomain} {batchLen : UInt64}
    {posted : List Bytes} {chunk : Bytes} {Q : Set Bytes}
    (h : commitStrings domain batchLen posted ⊆ Q) (hchunk : chunk ∈ Q)
    (hlink : chunkString (commitChunks domain batchLen posted) (chunkDigest chunk) ∈ Q) :
    commitStrings domain batchLen (posted ++ [chunk]) ⊆ Q := by
  obtain ⟨hseed, hposted, hlinks⟩ := commitStrings_subset.mp h
  refine commitStrings_subset.mpr ⟨hseed, ?_, ?_⟩
  · intro c hc
    rcases List.mem_append.mp hc with hc | hc
    · exact hposted c hc
    · rwa [List.mem_singleton.mp hc]
  · rw [List.map_append, List.map_singleton, HashChain.strings_append_subset]
    exact ⟨hlinks, HashChain.strings_cons_subset.mpr ⟨hlink, HashChain.strings_nil_subset _⟩⟩

/-- No chunk link leads back to a seed. -/
theorem chunk_anchor {Q : Set Bytes} (hQ : Ideal Q) {domain : DeploymentDomain}
    {batchLen : UInt64} (h : seedString domain batchLen ∈ Q) :
    HashChain.Anchor sha256 chunkString Q (sha256 (seedString domain batchLen)) := by
  intro accumulator digest hmem heq
  exact chunkString_ne_seedString _ _ _ _ (hQ.inj _ hmem _ h heq)

theorem commitChunks_inj {Q : Set Bytes} (hQ : Ideal Q) {d d' : DeploymentDomain}
    {n n' : UInt64} {xs ys : List Bytes} (hx : commitStrings d n xs ⊆ Q)
    (hy : commitStrings d' n' ys ⊆ Q) (h : commitChunks d n xs = commitChunks d' n' ys) :
    d = d' ∧ n = n' ∧ xs = ys := by
  obtain ⟨hseed, hxs, hxlinks⟩ := commitStrings_subset.mp hx
  obtain ⟨hseed', hys, hylinks⟩ := commitStrings_subset.mp hy
  obtain ⟨hdigests, hstart⟩ := HashChain.fold_inj hQ.injOn chunkString_inj hxlinks hylinks
    (chunk_anchor hQ hseed) (chunk_anchor hQ hseed') h
  obtain ⟨hd, hn⟩ := seedString_inj (hQ.inj _ hseed _ hseed' hstart)
  exact ⟨hd, hn, HashChain.map_injOn hQ.injOn hxs hys hdigests⟩

end Chunks

end PaymentRollup
