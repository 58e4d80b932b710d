import SideSwap.Gdk.HeaderChain
import SideSwap.Lib.Merkle

/-!
# Verification of transactions

What holds in every run of what uses the chain of headers, whatever the servers answer:

* `spvRun_sound`: after calls of `spv_verify_tx` one after the other, the file is a valid chain, and
  a transaction that is reported as verified with a key is proven in it, unless a call with another
  key took headers off the file: such a call forgets the verified transactions of its own key only;
* `spvOverlap_invalid`: the lock that is to keep two calls apart is released at once, and two calls
  that overlap write the same headers twice;
* `threadRun_aligned_iff`: the thread that asks for headers keeps file and memory together if and
  only if never more than 144 headers are accepted and not written before one is rejected;
* `verifyTxProof_block`: a proof of full height proves that the transaction is in the block, and one
  that is not proves an inner node of the block's Merkle tree.
-/

namespace SideSwap.Gdk

open Libwally Call

variable {lib : BlockLib}

/-! ### Proofs -/

/-- The node above two nodes. -/
def nodeHash (lib : BlockLib) (l r : Bytes32) : Bytes32 := lib.sha256d (l.bytes ++ r.bytes)

@[simp] theorem Bytes32.reverse_reverse (b : Bytes32) : b.reverse.reverse = b := by
  cases b
  simp [Bytes32.reverse]

theorem merkleLoop_eq_climb (path : List Bytes32) (pos : ℕ) (current : Bytes32) :
    merkleLoop lib pos current path =
      Merkle.climb (nodeHash lib) pos (path.map Bytes32.reverse) current := by
  induction path generalizing pos current with
  | nil => rfl
  | cons hash rest ih =>
    rw [merkleLoop, List.map_cons, Merkle.climb, ← ih]
    rfl

/-- The string that is hashed for a node. -/
def nodeString (p : Bytes32 × Bytes32) : Bytes := p.1.bytes ++ p.2.bytes

theorem nodeString_injective : Function.Injective nodeString := by
  rintro ⟨a, b⟩ ⟨a', b'⟩ h
  obtain ⟨ha, hb⟩ := List.append_inj h (by rw [a.length, a'.length])
  cases a
  cases b
  cases a'
  cases b'
  simp_all

/-- What is hashed to verify a proof. -/
def hashedByProof (lib : BlockLib) (txid : Txid) (proof : GetMerkleRes) : List Bytes :=
  (Merkle.climbPairs (nodeHash lib) proof.pos (proof.merkle.map Bytes32.reverse) txid).map nodeString

/-- What is hashed to compute the Merkle root of a block. -/
def hashedByBlock (lib : BlockLib) (txids : List Txid) : List Bytes :=
  (Merkle.treePairs (nodeHash lib) (Merkle.depth txids) txids).map nodeString

theorem verifyTxProof_eq_ok {chain : HeadersChain} {txid : Txid} {height : ℕ} {proof : GetMerkleRes} :
    chain.verifyTxProof lib txid height proof = .ok () ↔ ∃ header, chain.file[height]? = some header ∧
      header.merkleRoot = Merkle.climb (nodeHash lib) proof.pos (proof.merkle.map Bytes32.reverse) txid := by
  simp only [HeadersChain.verifyTxProof, HeadersChain.get, computeMerkleRoot, merkleLoop_eq_climb,
    bind_eq_ok, okOr_eq_ok, ensure_eq_ok, decide_eq_true_eq]

/-- Of a block with the given transactions, a proof that is not higher than the Merkle tree proves
that its subject is a node that many levels below the root, or something that is hashed for the
proof has the same hash as something else that is hashed for the block; and each such node has a
proof.  The transactions are the nodes of the lowest row. -/
theorem verifyTxProof_block {chain : HeadersChain} {height : ℕ} {header : Header}
    (hheader : chain.file[height]? = some header) {txids : List Txid}
    (hroot : Merkle.root (nodeHash lib) txids = some header.merkleRoot) :
    (∀ txid proof, chain.verifyTxProof lib txid height proof = .ok () →
      proof.merkle.length ≤ Merkle.depth txids →
      txid ∈ Merkle.row (nodeHash lib) (Merkle.depth txids - proof.merkle.length) txids ∨
        ∃ m ∈ hashedByProof lib txid proof, ∃ m' ∈ hashedByBlock lib txids,
          m ≠ m' ∧ lib.sha256d m = lib.sha256d m') ∧
    (∀ levels ≤ Merkle.depth txids, ∀ node ∈ Merkle.row (nodeHash lib) levels txids,
      ∃ proof, proof.merkle.length = Merkle.depth txids - levels ∧
        chain.verifyTxProof lib node height proof = .ok ()) := by
  have htop := Merkle.row_depth hroot
  constructor
  · -- the climb of the proof ends at the root, which is the topmost row
    intro txid proof hok hlength
    obtain ⟨header', hheader', hclimb⟩ := verifyTxProof_eq_ok.mp hok
    rw [hheader, Option.some.injEq] at hheader'
    subst hheader'
    -- and so it began in the row that has the length of the proof below it
    have hmem : Merkle.climb (nodeHash lib) proof.pos (proof.merkle.map Bytes32.reverse) txid ∈
        Merkle.row (nodeHash lib) (Merkle.depth txids - proof.merkle.length +
          (proof.merkle.map Bytes32.reverse).length) txids := by
      rw [List.length_map, Nat.sub_add_cancel hlength, htop, ← hclimb]
      exact List.mem_singleton_self _
    refine (Merkle.mem_row_of_climb hmem).imp_right ?_
    rintro ⟨p, hp, q, hq, hne, heq⟩
    -- or two different nodes have the same hash
    rw [List.length_map, Nat.sub_add_cancel hlength] at hq
    exact ⟨_, List.mem_map_of_mem hp, _, List.mem_map_of_mem hq, nodeString_injective.ne hne, heq⟩
  · intro levels hlevels node hnode
    obtain ⟨pos, hpos⟩ := List.mem_iff_getElem?.mp hnode
    have hclimb := Merkle.climb_branch (nodeHash lib) (Merkle.depth txids - levels) hpos
    -- the branch of a node in a row leads to the root
    rw [← Merkle.row_add, Nat.add_sub_cancel' hlevels, htop] at hclimb
    have hmem := List.mem_singleton.mp (List.mem_of_getElem? hclimb)
    refine ⟨⟨pos, (Merkle.branch (nodeHash lib) (Merkle.depth txids - levels)
      (Merkle.row (nodeHash lib) levels txids) pos node).map Bytes32.reverse⟩, ?_, ?_⟩
    · rw [List.length_map, Merkle.length_branch]
    · refine verifyTxProof_eq_ok.mpr ⟨header, hheader, ?_⟩
      rw [List.map_map, show Bytes32.reverse ∘ Bytes32.reverse = id from
        funext Bytes32.reverse_reverse, List.map_id]
      exact hmem.symm

/-! #### A block of three transactions -/

namespace ThreeTxs

def bytes (b : UInt8) : Bytes32 := .replicate b

/-- The hash of a node depends on both nodes below it. -/
def libs : BlockLib :=
  { OneBlock.libs with
    sha256d := fun node => bytes (3 * (node[0]?.getD 0) + node[32]?.getD 0 + 1) }

def txids : List Txid := [bytes 1, bytes 2, bytes 3]

/-- The row above the transactions is 6 and 13, as the last one is combined with itself. -/
def header : Header := ⟨1, bytes 0, bytes 32, 0, 1, 0⟩

def chain : HeadersChain := ⟨[header], 0, header⟩

/-- The proof of the second transaction. -/
def proof : GetMerkleRes := ⟨1, [bytes 1, bytes 13]⟩

end ThreeTxs

/-- The second transaction has a proof from which it follows that it is in the block, and the third
one has a proof too. -/
theorem verifyTxProof_block_threeTxs :
    (ThreeTxs.bytes 2 ∈ Merkle.row (nodeHash ThreeTxs.libs) 0 ThreeTxs.txids ∨
      ∃ m ∈ hashedByProof ThreeTxs.libs (ThreeTxs.bytes 2) ThreeTxs.proof,
        ∃ m' ∈ hashedByBlock ThreeTxs.libs ThreeTxs.txids,
          m ≠ m' ∧ ThreeTxs.libs.sha256d m = ThreeTxs.libs.sha256d m') ∧
    ∃ proof : GetMerkleRes, proof.merkle.length = 2 ∧
      ThreeTxs.chain.verifyTxProof ThreeTxs.libs (ThreeTxs.bytes 3) 0 proof = .ok () := by
  have hdepth : Merkle.depth ThreeTxs.txids = 2 := by decide
  have hroot : Merkle.root (nodeHash ThreeTxs.libs) ThreeTxs.txids = some ThreeTxs.header.merkleRoot := by
    rw [Merkle.root, hdepth]
    decide
  have hheader : ThreeTxs.chain.file[0]? = some ThreeTxs.header := rfl
  obtain ⟨hsound, hcomplete⟩ := verifyTxProof_block hheader hroot
  rw [hdepth] at hsound hcomplete
  constructor
  · exact hsound (ThreeTxs.bytes 2) ThreeTxs.proof (by decide) (by decide)
  · exact hcomplete 0 (Nat.zero_le _) (ThreeTxs.bytes 3) (by decide)

/-! ### The calls of `spv_verify_tx` -/

/-- A header of the chain has a Merkle root to which some proof leads from the transaction. -/
def Proven (lib : BlockLib) (file : List Header) (txid : Txid) : Prop :=
  ∃ (height : ℕ) (header : Header) (proof : GetMerkleRes), file[height]? = some header ∧
    header.merkleRoot = computeMerkleRoot lib txid proof

theorem Proven.append {file : List Header} {txid : Txid} (h : Proven lib file txid)
    (written : List Header) : Proven lib (file ++ written) txid := by
  obtain ⟨height, header, proof, hheader, hroot⟩ := h
  obtain ⟨hlt, _⟩ := List.getElem?_eq_some_iff.mp hheader
  exact ⟨height, header, proof, by rw [List.getElem?_append_left hlt, hheader], hroot⟩

@[simp] theorem SpvFiles.setVerified_self (files : SpvFiles) (key : String) (verified : List Txid) :
    (files.setVerified key verified).verified key = verified := Function.update_self _ _ _

theorem SpvFiles.setVerified_of_ne (files : SpvFiles) {key key' : String} (h : key' ≠ key)
    (verified : List Txid) : (files.setVerified key verified).verified key' = files.verified key' :=
  Function.update_of_ne h _ _

/-- The headers in the file are a valid chain. -/
def SpvFiles.Valid (lib : BlockLib) (files : SpvFiles) : Prop :=
  ∀ file, files.headers = some file → ValidChain lib file

/-- Each transaction that is verified with a key is proven in the file. -/
def SpvFiles.Backed (lib : BlockLib) (key : String) (files : SpvFiles) : Prop :=
  ∀ txid ∈ files.verified key, ∃ file, files.headers = some file ∧ Proven lib file txid

/-- The file of headers got shorter. -/
def SpvFiles.Shortens (files files' : SpvFiles) : Prop :=
  (files'.headers.getD []).length < (files.headers.getD []).length

instance (files files' : SpvFiles) : Decidable (files.Shortens files') := Nat.decLt _ _

/-- The chain of a file that holds a valid one. -/
theorem HeadersChain.new_aligned {headers : Option (List Header)} {chain : HeadersChain}
    (hvalid : ∀ file, headers = some file → ValidChain lib file)
    (h : HeadersChain.new lib headers = .ok chain) : chain.Aligned lib ∧
      ∀ file, headers = some file → chain.file = file := by
  cases headers with
  | none =>
    rw [new, pure_eq_ok] at h
    subst h
    exact ⟨⟨rfl, rfl, .genesis⟩, fun _ h => by cases h⟩
  | some file =>
    simp only [new, bind_eq_ok, okOr_eq_ok, pure_eq_ok] at h
    obtain ⟨last, hlast, rfl⟩ := h
    have hfile := hvalid file rfl
    have hpos := List.length_pos_of_ne_nil hfile.ne_nil
    exact ⟨⟨Nat.sub_add_cancel hpos, hlast, hfile⟩, fun _ h => Option.some.inj h⟩

/-- What a call leaves if it adds headers. -/
theorem push_remove_valid {chain : HeadersChain} (h : chain.Aligned lib) (newHeaders : List Header) :
    ∃ written, (chain.push lib newHeaders).1.file = chain.file ++ written ∧
      ValidChain lib (chain.file ++ written) ∧
      ValidChain lib ((chain.push lib newHeaders).1.remove 144).1.file ∧
      ((chain.push lib newHeaders).1.remove 144).1.file <+: chain.file ++ written := by
  -- the headers are all accepted, and the file is theirs
  cases hpush : (chain.push lib newHeaders).2 with
  | ok =>
    obtain ⟨haligned, hfile⟩ := (HeadersChain.push_iff h newHeaders).2 hpush
    refine ⟨newHeaders, hfile, hfile ▸ haligned.valid, ?_⟩
    have htorn : Torn (chain.push lib newHeaders).1 (chain.push lib newHeaders).1.file :=
      ⟨⟨[], (List.append_nil _).symm⟩, haligned.height_eq, haligned.last_eq⟩
    rw [← hfile]
    rcases HeadersChain.remove_after haligned.valid htorn 144 with ⟨_, _, hrest, k, hk⟩ | ⟨_, hrest⟩
    · exact ⟨hrest.valid, hk ▸ List.take_prefix _ _⟩
    · rw [hrest]
      exact ⟨haligned.valid, List.prefix_refl _⟩
  -- a header fails, and what was written before is still valid
  | error f =>
    obtain ⟨_, whole, hvalid, htorn, written, hwritten⟩ := HeadersChain.push_fails h hpush
    have hfile : ValidChain lib (chain.push lib newHeaders).1.file := by
      obtain ⟨rest, hwhole⟩ := htorn.file_eq
      refine ValidChain.of_append rest ?_ (hwhole ▸ hvalid)
      rw [hwritten]
      exact List.append_ne_nil_of_left_ne_nil h.valid.ne_nil _
    refine ⟨written, hwritten, hwritten ▸ hfile, ?_⟩
    rw [← hwritten]
    -- then the removal succeeds, or it leaves the file alone
    rcases HeadersChain.remove_after hvalid htorn 144 with ⟨_, _, hrest, k, hk⟩ | ⟨_, hrest⟩
    · exact ⟨hrest.valid, hk ▸ List.take_prefix _ _⟩
    · rw [hrest]
      exact ⟨hfile, List.prefix_refl _⟩

/-- What the second part of a call does: it verifies the transaction, takes headers off and forgets
what was verified with its key, or adds headers, if it does anything. -/
theorem spvAsk_cases {chain : HeadersChain} (haligned : chain.Aligned lib)
    {verified : String → List Txid} {input : SPVVerifyTx} {server : SpvServer} {files : SpvFiles}
    {result : Call Error SPVVerifyResult}
    (hask : spvAsk lib ⟨some chain.file, verified⟩
      ⟨verified input.encryptionKey, chain.height, chain.last⟩ input server = (files, result)) :
    (result = .ok .verified ∧ Proven lib chain.file input.txid ∧
      files = SpvFiles.setVerified ⟨some chain.file, verified⟩ input.encryptionKey
        ((verified input.encryptionKey).insert input.txid)) ∨
    (result ≠ .ok .verified ∧ ∃ written, ValidChain lib (chain.file ++ written) ∧
      (files = ⟨some (chain.file ++ written), verified⟩ ∨
        ∃ left, ValidChain lib left ∧ left <+: chain.file ++ written ∧
          files = SpvFiles.setVerified ⟨some left, verified⟩ input.encryptionKey [])) := by
  -- answers that leave the files as they are
  have hsame : ∀ r : Call Error SPVVerifyResult, r ≠ .ok .verified → files = ⟨some chain.file, verified⟩ →
      r ≠ .ok .verified ∧ ∃ written, ValidChain lib (chain.file ++ written) ∧
        (files = ⟨some (chain.file ++ written), verified⟩ ∨
          ∃ left, ValidChain lib left ∧ left <+: chain.file ++ written ∧
            files = SpvFiles.setVerified ⟨some left, verified⟩ input.encryptionKey []) := by
    intro r hr hfiles
    refine ⟨hr, [], ?_, .inl ?_⟩
    · rw [List.append_nil]
      exact haligned.valid
    · rw [List.append_nil]
      exact hfiles
  -- the height is in the chain, so that a proof is asked for
  simp only [spvAsk, Option.getD_some] at hask
  split at hask
  · split at hask
    · cases hask
      exact .inr (hsame _ (by decide) rfl)
    · rename_i proof _
      split at hask
      · -- the proof is good
        rename_i hverify
        cases hask
        simp only [HeadersChain.verifyTxProof, HeadersChain.get, bind_eq_ok, okOr_eq_ok, ensure_eq_ok,
          decide_eq_true_eq] at hverify
        obtain ⟨header, hheader, hroot⟩ := hverify
        exact .inl ⟨rfl, ⟨input.height, header, proof, hheader, hroot⟩, rfl⟩
      · cases hask
        exact .inr (hsame _ (by decide) rfl)
  · -- the height is above the chain, so that headers are asked for
    split at hask
    · cases hask
      exact .inr (hsame _ (by decide) rfl)
    · rename_i newHeaders _
      obtain ⟨written, hwritten, hvalid, hremoved, hprefix⟩ := push_remove_valid haligned newHeaders
      right
      split at hask
      · rename_i chain' hpush
        rw [hpush] at hwritten hremoved hprefix
        split at hask
        · -- the headers were invalid, and the chain and its cache were cut back
          rename_i chain'' hremove
          cases hask
          rw [hremove] at hremoved hprefix
          exact ⟨by decide, written, hvalid, .inr ⟨_, hremoved, hprefix, rfl⟩⟩
        · -- the removal has failed
          rename_i chain'' e hremove
          cases hask
          refine ⟨by simp, written, hvalid, .inl ?_⟩
          rw [HeadersChain.remove_error hremove, hwritten]
      · -- the headers were good
        rename_i chain' _ _ hpush
        cases hask
        rw [hpush] at hwritten
        exact ⟨by decide, written, hvalid, .inl (by rw [hwritten])⟩

/-- What a call does: nothing but to look into the files, or what `spvAsk_cases` says, with the file
of the first block if there was none. -/
theorem spvVerifyTx_cases {files : SpvFiles} (h : files.Valid lib) (input : SPVVerifyTx)
    (server : SpvServer) :
    ((spvVerifyTx lib files input server).1 = files ∧
      ((spvVerifyTx lib files input server).2 = .ok .verified →
        input.txid ∈ files.verified input.encryptionKey)) ∨
    ∃ chain, HeadersChain.Aligned lib chain ∧ (∀ file, files.headers = some file → chain.file = file) ∧
      spvAsk lib ⟨some chain.file, files.verified⟩
        ⟨files.verified input.encryptionKey, chain.height, chain.last⟩ input server =
          spvVerifyTx lib files input server := by
  unfold spvVerifyTx spvOpen
  by_cases hcached : input.txid ∈ files.verified input.encryptionKey
  · simp only [if_pos hcached]
    exact .inl ⟨rfl, fun _ => hcached⟩
  · simp only [if_neg hcached]
    cases hnew : HeadersChain.new lib files.headers with
    | error e => exact .inl ⟨rfl, fun heq => by cases heq⟩
    | ok chain =>
      obtain ⟨haligned, hfile⟩ := HeadersChain.new_aligned h hnew
      exact .inr ⟨chain, haligned, hfile, rfl⟩

/-- A call keeps the chain in the file valid. -/
theorem spvVerifyTx_valid {files : SpvFiles} (h : files.Valid lib) (input : SPVVerifyTx)
    (server : SpvServer) : (spvVerifyTx lib files input server).1.Valid lib := by
  rcases spvVerifyTx_cases h input server with ⟨hsame, _⟩ | ⟨chain, haligned, _, hask⟩
  · rwa [hsame]
  · rcases hcall : spvVerifyTx lib files input server with ⟨files', result⟩
    rw [hcall] at hask
    rcases spvAsk_cases haligned hask with ⟨_, _, rfl⟩ | ⟨_, _, hvalid, rfl | ⟨left, hleft, _, rfl⟩⟩
    · exact fun file heq => Option.some.inj heq ▸ haligned.valid
    · exact fun file heq => Option.some.inj heq ▸ hvalid
    · exact fun file heq => Option.some.inj heq ▸ hleft

/-- A call with the key, or one that does not make the file shorter, keeps what was verified with
the key proven. -/
theorem spvVerifyTx_backed {files : SpvFiles} (h : files.Valid lib) {key : String}
    (hbacked : files.Backed lib key) (input : SPVVerifyTx) (server : SpvServer)
    (hkey : input.encryptionKey = key ∨
      ¬ files.Shortens (spvVerifyTx lib files input server).1) :
    (spvVerifyTx lib files input server).1.Backed lib key := by
  rcases spvVerifyTx_cases h input server with ⟨hsame, _⟩ | ⟨chain, haligned, hfile, hask⟩
  · rwa [hsame]
  · rcases hcall : spvVerifyTx lib files input server with ⟨files', result⟩
    rw [hcall] at hask hkey
    have hchain : ∀ txid ∈ files.verified key, Proven lib chain.file txid := by
      intro txid htxid
      obtain ⟨file, hheaders, hproven⟩ := hbacked txid htxid
      rwa [hfile file hheaders]
    rcases spvAsk_cases haligned hask with
      ⟨_, hproven, rfl⟩ | ⟨_, written, _, rfl | ⟨left, _, hprefix, rfl⟩⟩
    · intro txid htxid
      refine ⟨_, rfl, ?_⟩
      by_cases hsame : key = input.encryptionKey
      · subst hsame
        simp only [SpvFiles.setVerified_self] at htxid
        rcases List.mem_insert_iff.mp htxid with rfl | htxid
        · exact hproven
        · exact hchain txid htxid
      · simp only [SpvFiles.setVerified_of_ne _ hsame] at htxid
        exact hchain txid htxid
    · exact fun txid htxid => ⟨_, rfl, (hchain txid htxid).append written⟩
    · intro txid htxid
      refine ⟨left, rfl, ?_⟩
      by_cases hsame : key = input.encryptionKey
      · subst hsame
        simp only [SpvFiles.setVerified_self] at htxid
        cases htxid
      · simp only [SpvFiles.setVerified_of_ne _ hsame] at htxid
        -- the file did not get shorter, so what it held is still in it
        have hlong := hkey.resolve_left (Ne.symm hsame)
        obtain ⟨file, hheaders, _⟩ := hbacked txid htxid
        rw [SpvFiles.Shortens, hheaders, ← hfile file hheaders] at hlong
        obtain ⟨rest, hrest⟩ := List.prefix_of_prefix_length_le (List.prefix_append chain.file written)
          hprefix (Nat.not_lt.mp hlong)
        rw [← hrest]
        exact (hchain txid htxid).append rest

/-- What a call reports as verified is in the file of its key. -/
theorem spvVerifyTx_verified {files : SpvFiles} (h : files.Valid lib) {input : SPVVerifyTx}
    {server : SpvServer} (hresult : (spvVerifyTx lib files input server).2 = .ok .verified) :
    input.txid ∈ (spvVerifyTx lib files input server).1.verified input.encryptionKey := by
  rcases spvVerifyTx_cases h input server with ⟨hsame, hcached⟩ | ⟨chain, haligned, _, hask⟩
  · rw [hsame]
    exact hcached hresult
  · rcases hcall : spvVerifyTx lib files input server with ⟨files', result⟩
    rw [hcall] at hask hresult
    rcases spvAsk_cases haligned hask with ⟨_, _, rfl⟩ | ⟨hnot, _⟩
    · simp only [SpvFiles.setVerified_self]
      exact List.mem_insert_self
    · exact absurd hresult hnot

/-- The files after some calls, one after the other. -/
def spvRun (lib : BlockLib) (files : SpvFiles) (calls : List (SPVVerifyTx × SpvServer)) : SpvFiles :=
  calls.foldl (fun files call => (spvVerifyTx lib files call.1 call.2).1) files

/-- No call of a run with another key makes the file of headers shorter. -/
def KeepsHeaders (lib : BlockLib) (key : String) (files : SpvFiles) :
    List (SPVVerifyTx × SpvServer) → Prop
  | [] => True
  | call :: rest =>
    (call.1.encryptionKey = key ∨ ¬ files.Shortens (spvVerifyTx lib files call.1 call.2).1) ∧
      KeepsHeaders lib key (spvVerifyTx lib files call.1 call.2).1 rest

theorem spvRun_valid {files : SpvFiles} (h : files.Valid lib) (calls : List (SPVVerifyTx × SpvServer)) :
    (spvRun lib files calls).Valid lib := by
  induction calls generalizing files with
  | nil => exact h
  | cons call calls ih => exact ih (spvVerifyTx_valid h call.1 call.2)

theorem spvRun_backed {files : SpvFiles} (h : files.Valid lib) {key : String}
    (hbacked : files.Backed lib key) {calls : List (SPVVerifyTx × SpvServer)}
    (hkeeps : KeepsHeaders lib key files calls) : (spvRun lib files calls).Backed lib key := by
  induction calls generalizing files with
  | nil => exact hbacked
  | cons call calls ih =>
    exact ih (spvVerifyTx_valid h call.1 call.2)
      (spvVerifyTx_backed h hbacked call.1 call.2 hkeeps.1) hkeeps.2

/-- No file is there. -/
def SpvFiles.empty : SpvFiles := ⟨none, fun _ => []⟩

/-- Whatever the servers answer, the headers in the file are always a valid chain, and a transaction
that is reported as verified with a key is proven in it, as long as no call with another key has
taken headers off. -/
theorem spvRun_sound (calls : List (SPVVerifyTx × SpvServer)) :
    (spvRun lib .empty calls).Valid lib ∧
    ∀ (input : SPVVerifyTx) (server : SpvServer),
      KeepsHeaders lib input.encryptionKey .empty calls →
      (spvVerifyTx lib (spvRun lib .empty calls) input server).2 = .ok .verified →
      ∃ file, (spvVerifyTx lib (spvRun lib .empty calls) input server).1.headers = some file ∧
        ValidChain lib file ∧ Proven lib file input.txid := by
  have hempty : SpvFiles.empty.Valid lib := fun _ h => by cases h
  have hvalid := spvRun_valid hempty calls
  refine ⟨hvalid, fun input server hkeeps hresult => ?_⟩
  have hbacked := spvRun_backed hempty (fun _ h => by cases h) hkeeps
  obtain ⟨file, hfile, hproven⟩ :=
    spvVerifyTx_backed hvalid hbacked input server (.inl rfl) _ (spvVerifyTx_verified hvalid hresult)
  exact ⟨file, hfile, spvVerifyTx_valid hvalid input server file hfile, hproven⟩

/-- Of two keys, the second one gets to know of a reorganisation, and the first one still has the
transaction of a block that is not there any more. -/
example :
    let calls : List (SPVVerifyTx × SpvServer) :=
      [(⟨OneBlock.bytes 8, 1, "a"⟩, ⟨none, some [OneBlock.next]⟩),
        (⟨OneBlock.bytes 8, 1, "a"⟩, ⟨some ⟨0, []⟩, none⟩),
        (⟨OneBlock.bytes 8, 2, "b"⟩, ⟨none, some [OneBlock.next]⟩)]
    (spvRun OneBlock.libs .empty calls).headers = some [OneBlock.first] ∧
      (spvVerifyTx OneBlock.libs (spvRun OneBlock.libs .empty calls) ⟨OneBlock.bytes 8, 1, "a"⟩
        ⟨none, none⟩).2 = .ok .verified := by
  decide +kernel

/-! ### The thread that asks for headers -/

/-- One round of the thread: headers are asked for and added, and if they are not valid, some are
taken off. -/
def threadStep (lib : BlockLib) (chain : HeadersChain) (answer : Option (List Header)) : HeadersChain :=
  match answer with
  | none => chain
  | some newHeaders =>
    match chain.push lib newHeaders with
    | (chain, .error (.error .invalidHeaders)) => (chain.remove 144).1
    | (chain, _) => chain

/-- The thread's chain still agrees with its file if and only if not too many headers were accepted
that are not written. -/
theorem threadStep_aligned_iff {chain : HeadersChain} (h : chain.Aligned lib)
    (newHeaders : List Header) : (threadStep lib chain (some newHeaders)).Aligned lib ↔
      (chain.push lib newHeaders).1.height < (chain.push lib newHeaders).1.file.length + 144 := by
  cases hpush : (chain.push lib newHeaders).2 with
  | ok =>
    have haligned := ((HeadersChain.push_iff h newHeaders).2 hpush).1
    have hstep : threadStep lib chain (some newHeaders) = (chain.push lib newHeaders).1 := by
      rw [threadStep, ← Prod.mk.eta (p := chain.push lib newHeaders), hpush]
    rw [hstep]
    have hheight := haligned.height_eq
    exact ⟨fun _ => by omega, fun _ => haligned⟩
  | error f =>
    obtain ⟨rfl, whole, hvalid, htorn, written, hwritten⟩ := HeadersChain.push_fails h hpush
    have hstep : threadStep lib chain (some newHeaders) =
        ((chain.push lib newHeaders).1.remove 144).1 := by
      rw [threadStep, ← Prod.mk.eta (p := chain.push lib newHeaders), hpush]
    have hpos : 0 < (chain.push lib newHeaders).1.file.length := by
      rw [hwritten]
      exact List.length_pos_of_ne_nil (List.append_ne_nil_of_left_ne_nil h.valid.ne_nil _)
    rw [hstep]
    rcases HeadersChain.remove_after hvalid htorn 144 with ⟨hlt, _, haligned, _⟩ | ⟨hle, hremove⟩
    · exact ⟨fun _ => by omega, fun _ => haligned⟩
    · rw [hremove]
      refine ⟨fun haligned => ?_, fun hlt => ?_⟩
      · have hheight : (chain.push lib newHeaders).1.height + 1 =
            (chain.push lib newHeaders).1.file.length := haligned.height_eq
        omega
      · omega

/-- The thread that follows the chain, over the answers of the server. -/
def threadRun (lib : BlockLib) (chain : HeadersChain) (answers : List (Option (List Header))) :
    HeadersChain :=
  answers.foldl (threadStep lib) chain

/-- In a run of the thread, the chain agrees with its file all the time if and only if at no time
more than 144 headers are accepted and not written before one is rejected. -/
theorem threadRun_aligned_iff {chain : HeadersChain} (h : chain.Aligned lib)
    (answers : List (Option (List Header))) :
    (∀ before after, answers = before ++ after → (threadRun lib chain before).Aligned lib) ↔
      ∀ before newHeaders after, answers = before ++ some newHeaders :: after →
        ((threadRun lib chain before).push lib newHeaders).1.height <
          ((threadRun lib chain before).push lib newHeaders).1.file.length + 144 := by
  constructor
  · intro haligned before newHeaders after hsplit
    have hbefore := haligned before _ hsplit
    have hnext := haligned (before ++ [some newHeaders]) after (by simp [hsplit])
    rw [threadRun, List.foldl_append, List.foldl_cons, List.foldl_nil] at hnext
    exact (threadStep_aligned_iff hbefore newHeaders).mp hnext
  · intro hfew before after hsplit
    induction before using List.reverseRecOn generalizing after with
    | nil => exact h
    | append_singleton before answer ih =>
      rw [List.append_assoc, List.singleton_append] at hsplit
      have hbefore := ih _ hsplit
      rw [threadRun, List.foldl_append, List.foldl_cons, List.foldl_nil]
      cases answer with
      | none => exact hbefore
      | some newHeaders =>
        exact (threadStep_aligned_iff hbefore newHeaders).mpr (hfew before newHeaders after hsplit)

/-- A block after `next`. -/
def OneBlock.after : Header := ⟨1, bytes 11, bytes 9, 1200, 1, 2⟩

/-- A block without a parent. -/
def OneBlock.orphan : Header := ⟨1, bytes 99, bytes 9, 1200, 1, 2⟩

/-- An invalid header after one that is accepted does no harm, but it does after 200 of them. -/
theorem threadRun_aligned_iff_oneBlock :
    (threadRun OneBlock.libs OneBlock.chain [some [OneBlock.next, OneBlock.orphan]]).Aligned
      OneBlock.libs ∧
    ¬ ∀ before after, [some (OneBlock.next :: List.replicate 199 OneBlock.after ++ [OneBlock.orphan])] =
      before ++ after → (threadRun OneBlock.libs OneBlock.chain before).Aligned OneBlock.libs := by
  constructor
  · refine (threadRun_aligned_iff OneBlock.aligned [some [OneBlock.next, OneBlock.orphan]]).mpr ?_
      [some [OneBlock.next, OneBlock.orphan]] [] rfl
    intro before newHeaders after hsplit
    obtain ⟨rfl, hcons⟩ | ⟨rest, rfl, hnil⟩ := List.append_eq_cons_iff.mp hsplit.symm
    · cases hcons
      decide
    · simp at hnil
  · rw [threadRun_aligned_iff OneBlock.aligned]
    intro hfew
    have hbeyond := hfew [] _ [] rfl
    revert hbeyond
    decide +kernel

/-! ### Calls that overlap -/

/-- Two states of `push` that differ only in what the file holds after a common part. -/
structure Pushing.Sim (base extra : List Header) (p p' : Pushing) : Prop where
  height_eq : p'.chain.height = p.chain.height
  last_eq : p'.chain.last = p.chain.last
  serialized_eq : p'.serialized = p.serialized
  bits_eq : p'.currBits = p.currBits
  file_eq : ∃ written, p.chain.file = base ++ written ∧ p'.chain.file = base ++ extra ++ written

theorem Pushing.Sim.accept {base extra : List Header} {p p' : Pushing} (h : Sim base extra p p')
    (x : Header) : (p'.accept lib x).2 = (p.accept lib x).2 ∧
      Sim base extra (p.accept lib x).1 (p'.accept lib x).1 ∧
      (p.accept lib x).1.chain.height ≤ p.chain.height + 1 := by
  simp only [Pushing.accept, h.height_eq]
  split
  · exact ⟨rfl, h, Nat.le_succ _⟩
  · refine ⟨rfl, ⟨rfl, rfl, ?_, h.bits_eq, h.file_eq⟩, Nat.le_refl _⟩
    simp only [h.serialized_eq]

theorem Pushing.Sim.flush {base extra : List Header} {p p' : Pushing} (h : Sim base extra p p') :
    Sim base extra p.flush p'.flush where
  height_eq := h.height_eq
  last_eq := h.last_eq
  serialized_eq := rfl
  bits_eq := h.bits_eq
  file_eq := by
    obtain ⟨written, hp, hp'⟩ := h.file_eq
    refine ⟨written ++ p.serialized, ?_, ?_⟩
    · simp only [Pushing.flush, hp, List.append_assoc]
    · simp only [Pushing.flush, hp', h.serialized_eq, List.append_assoc]

/-- A round goes the same way if it reads the common part only. -/
theorem Pushing.Sim.header (lib : BlockLib) {base extra : List Header} {p p' : Pushing}
    (h : Sim base extra p p') (hbase : p.chain.height + 1 - diffchangeInterval < base.length) (x : Header) :
    (p'.header lib x).2 = (p.header lib x).2 ∧
      Sim base extra (p.header lib x).1 (p'.header lib x).1 ∧
      (p.header lib x).1.chain.height ≤ p.chain.height + 1 := by
  simp only [Pushing.header, h.height_eq, h.last_eq, h.bits_eq]
  split
  · exact ⟨rfl, h, Nat.le_succ _⟩
  · split
    · have hflush := h.flush
      obtain ⟨written, hp, hp'⟩ := hflush.file_eq
      have hget : p'.flush.chain.get (p.chain.height + 1 - diffchangeInterval) =
          p.flush.chain.get (p.chain.height + 1 - diffchangeInterval) := by
        rw [HeadersChain.get, HeadersChain.get, hp, hp', List.append_assoc,
          List.getElem?_append_left hbase, List.getElem?_append_left hbase]
      rw [hget, hflush.last_eq]
      split
      · exact ⟨rfl, hflush, Nat.le_succ _⟩
      · split
        · exact ⟨rfl, hflush, Nat.le_succ _⟩
        · have hbits : Sim base extra { p.flush with currBits := x.bits }
              { p'.flush with currBits := x.bits } :=
            ⟨hflush.height_eq, hflush.last_eq, hflush.serialized_eq, rfl, hflush.file_eq⟩
          exact hbits.accept x
    · split
      · exact ⟨rfl, h, Nat.le_succ _⟩
      · exact h.accept x

theorem Pushing.Sim.headers (lib : BlockLib) {base extra : List Header} {p p' : Pushing}
    (h : Sim base extra p p') {newHeaders : List Header} (hne : base ≠ [])
    (hbase : p.chain.height + newHeaders.length < base.length + diffchangeInterval) :
    (p'.headers lib newHeaders).2 = (p.headers lib newHeaders).2 ∧
      ∃ written, (p.headers lib newHeaders).1.file = base ++ written ∧
        (p'.headers lib newHeaders).1.file = base ++ extra ++ written := by
  induction newHeaders generalizing p p' with
  | nil => exact ⟨rfl, h.flush.file_eq⟩
  | cons x rest ih =>
    rw [List.length_cons] at hbase
    have hpos := List.length_pos_of_ne_nil hne
    have hstep := header lib h (by omega) x
    obtain ⟨hresult, hsim, hheight⟩ := hstep
    rcases hp : p.header lib x with ⟨q, r⟩
    rcases hp' : p'.header lib x with ⟨q', r'⟩
    rw [hp, hp'] at hresult hsim
    rw [hp] at hheight
    simp only at hresult
    subst hresult
    rw [Pushing.headers, Pushing.headers, hp, hp']
    cases r' with
    | ok =>
      refine ih hsim ?_
      simp only at hheight
      omega
    | error e => exact ⟨rfl, hsim.file_eq⟩

/-- Two calls that both open the files before one of them asks the server. -/
def spvOverlap (lib : BlockLib) (files : SpvFiles) (input input' : SPVVerifyTx)
    (server server' : SpvServer) : SpvFiles :=
  match spvOpen lib files input, spvOpen lib files input' with
  | .ok (files, some opened), .ok (_, some opened') =>
    (spvAsk lib (spvAsk lib files opened input server).1 opened' input' server').1
  | _, _ => files

/-- A call that is answered with headers. -/
theorem spvAsk_push {files : SpvFiles} {opened : SpvOpened} {input : SPVVerifyTx} {server : SpvServer}
    {newHeaders : List Header} (hheight : opened.height < input.height)
    (hserver : server.headers = some newHeaders)
    (hok : (HeadersChain.push lib ⟨files.headers.getD [], opened.height, opened.last⟩ newHeaders).2 =
      .ok ()) :
    (spvAsk lib files opened input server).1.headers =
      some (HeadersChain.push lib ⟨files.headers.getD [], opened.height, opened.last⟩ newHeaders).1.file := by
  rcases hpush : HeadersChain.push lib ⟨files.headers.getD [], opened.height, opened.last⟩ newHeaders
    with ⟨chain, result⟩
  rw [hpush] at hok
  simp only at hok
  subst hok
  simp only [spvAsk, if_neg (Nat.not_le.mpr hheight), hserver, hpush]

/-- If two calls that overlap get the same new headers, then these are in the file twice, and the
file is no valid chain any more. -/
theorem spvOverlap_invalid {file : List Header} (hfile : ValidChain lib file)
    {verified : String → List Txid} {input input' : SPVVerifyTx}
    (hinput : input.txid ∉ verified input.encryptionKey ∧ file.length ≤ input.height)
    (hinput' : input'.txid ∉ verified input'.encryptionKey ∧ file.length ≤ input'.height)
    {newHeaders : List Header} (hlength : newHeaders.length ≤ diffchangeInterval)
    (hnew : ValidChain lib (file ++ newHeaders)) {server server' : SpvServer}
    (hserver : server.headers = some newHeaders) (hserver' : server'.headers = some newHeaders)
    {last last' : Header} (hlast : file.getLast? = some last)
    (hlast' : newHeaders.getLast? = some last') (hhash : lib.blockHash last' ≠ lib.blockHash last) :
    (spvOverlap lib ⟨some file, verified⟩ input input' server server').headers =
      some (file ++ newHeaders ++ newHeaders) ∧
    ¬ ValidChain lib (file ++ newHeaders ++ newHeaders) := by
  have hpos := List.length_pos_of_ne_nil hfile.ne_nil
  constructor
  · have hopen : ∀ i : SPVVerifyTx, i.txid ∉ verified i.encryptionKey →
        spvOpen lib ⟨some file, verified⟩ i =
          .ok (⟨some file, verified⟩, some ⟨verified i.encryptionKey, file.length - 1, last⟩) := by
      intro i hi
      simp only [spvOpen, if_neg hi, HeadersChain.new, hlast, okOr]
      rfl
    have haligned : HeadersChain.Aligned lib ⟨file, file.length - 1, last⟩ :=
      ⟨Nat.sub_add_cancel hpos, hlast, hfile⟩
    obtain ⟨hiff, hgrown⟩ := HeadersChain.push_iff haligned newHeaders
    have hok := hiff.mpr hnew
    simp only [spvOverlap, hopen input hinput.1, hopen input' hinput'.1]
    -- the second call pushes onto the file that the first one wrote
    have hfirst : (spvAsk lib ⟨some file, verified⟩
        ⟨verified input.encryptionKey, file.length - 1, last⟩ input server).1.headers =
          some (file ++ newHeaders) := by
      have hheight : file.length - 1 < input.height := by omega
      rw [spvAsk_push hheight hserver hok]
      exact congrArg some (hgrown hok).2
    have hsim : Pushing.Sim file newHeaders ⟨⟨file, file.length - 1, last⟩, [], last.bits⟩
        ⟨⟨file ++ newHeaders, file.length - 1, last⟩, [], last.bits⟩ :=
      ⟨rfl, rfl, rfl, rfl, [], (List.append_nil _).symm, (List.append_nil _).symm⟩
    obtain ⟨hresult, written, hwritten, hwritten'⟩ :=
      Pushing.Sim.headers lib hsim hfile.ne_nil
        (show file.length - 1 + newHeaders.length < file.length + diffchangeInterval by omega)
    have hsame : written = newHeaders :=
      List.append_cancel_left (hwritten.symm.trans (hgrown hok).2)
    have hheight' : file.length - 1 < input'.height := by omega
    rw [spvAsk_push hheight' hserver' (by rw [hfirst]; exact hresult.trans hok), hfirst]
    exact congrArg some (by rw [← hsame]; exact hsame ▸ hwritten')
  · intro hvalid
    obtain ⟨x, rest, hcons⟩ := List.exists_cons_of_ne_nil (l := newHeaders) (by
      rintro rfl
      cases hlast')
    have hwhole : (file ++ newHeaders).getLast? = some last' := by
      rw [List.getLast?_append, hlast']
      rfl
    have htwice : ValidChain lib (file ++ newHeaders ++ [x]) := by
      refine ValidChain.of_append rest (by simp) ?_
      rwa [List.append_assoc (file ++ newHeaders), List.singleton_append, ← hcons]
    have honce : ValidChain lib (file ++ [x]) := by
      refine ValidChain.of_append rest (by simp) ?_
      rwa [List.append_assoc, List.singleton_append, ← hcons]
    have hprev := ((ValidChain.snoc_iff hwhole).mp htwice).2.prev
    have hprev' := ((ValidChain.snoc_iff hlast).mp honce).2.prev
    exact hhash (hprev.trans hprev'.symm)

theorem spvOverlap_invalid_oneBlock :
    (spvOverlap OneBlock.libs ⟨some [OneBlock.first], fun _ => []⟩ ⟨OneBlock.bytes 1, 5, "a"⟩
      ⟨OneBlock.bytes 2, 6, "a"⟩ ⟨none, some [OneBlock.next]⟩ ⟨none, some [OneBlock.next]⟩).headers =
      some [OneBlock.first, OneBlock.next, OneBlock.next] :=
  (spvOverlap_invalid OneBlock.aligned.valid (by decide) (by decide) (by decide) OneBlock.valid rfl rfl
    rfl rfl (by decide)).1

end SideSwap.Gdk
