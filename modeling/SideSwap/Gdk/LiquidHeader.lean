import SideSwap.Gdk.Headers
import SideSwap.Lib.FirstFit
import SideSwap.Lib.Forall2

/-!
# Headers of Liquid blocks

The `Verifier` of `gdk_electrum` for the headers of Liquid, whose blocks are signed by 11 of 15
keys.  A header carries the script with the keys, which is fixed, and a script that solves it, of
which the verifier runs what it needs: pushes, small numbers and `OP_CHECKMULTISIG`.

* `verifyHeader_iff`: a header other than the first is accepted if and only if its solution leaves
  exactly 11 signatures on something else, and the signatures belong to keys in their order; so 11
  of the 15 keys have signed the block.  The verifier gives each signature the first key that fits,
  which loses nothing.
* `verifyHeader_panics`: a solution that checks signatures on an empty string is a panic.
-/

namespace SideSwap.Gdk

open Libwally Call

/-! ### The verifier -/

/-- How a block is signed: with one script, or with parameters that blocks elect. -/
inductive BlockExtData where
  | proof (challenge solution : Script)
  | dynafed
deriving DecidableEq

/-- A block's header, as far as its signatures go. -/
structure LiquidHeader where
  merkleRoot : Bytes32
  ext : BlockExtData

/-- An instruction of a script; a number is one byte, and the others are the operations that the
verifier does not know. -/
inductive Instruction where
  | pushBytes (data : Bytes)
  | pushNum (val : UInt8)
  | checkMultisig
  | other
deriving DecidableEq

/-- What `rust-elements` and `secp256k1` compute.  An error in a script is `none`. -/
structure LiquidLib (Key Signature : Type) where
  blockHash : LiquidHeader → BlockHash
  genesis : BlockHash
  instructions : Script → List (Option Instruction)
  parseKey : Bytes → Option Key
  parseSignature : Bytes → Option Signature
  verify : BlockHash → Signature → Key → Bool

/-- The public keys of the challenge. -/
def challengeKeys : List ℕ := [
  0x026a2a106ec32c8a1e8052e5d02a7b0a150423dbd9b116fc48d46630ff6e6a05b9,
  0x02791646a8b49c2740352b4495c118d876347bf47d0551c01c4332fdc2df526f1a,
  0x02888bda53a424466b0451627df22090143bbf7c060e9eacb1e38426f6b07f2ae1,
  0x02aee8967150dee220f613de3b239320355a498808084a93eaf39a34dcd6202485,
  0x02d46e9259d0a0bb2bcbc461a3e68f34adca27b8d08fbe985853992b4b104e2741,
  0x02e9944e35e5750ab621e098145b8e6cf373c273b7c04747d1aa020be0af40ccd6,
  0x02f9a9d4b10a6d6c56d8c955c547330c589bb45e774551d46d415e51cd9ad51163,
  0x033b421566c124dfde4db9defe4084b7aa4e7f36744758d92806b8f72c2e943309,
  0x0353dcc6b4cf6ad28aceb7f7b2db92a4bf07ac42d357adf756f3eca790664314b6,
  0x037f55980af0455e4fb55aad9b85a55068bb6dc4740ea87276dc693f4598db45fa,
  0x0384001daa88dabd23db878dbb1ce5b4c2a5fa72c3113e3514bf602325d0c37b8e,
  0x039056d089f2fe72dbc0a14780b4635b0dc8a1b40b7a59106325dd1bc45cc70493,
  0x0397ab8ea7b0bf85bc7fc56bb27bf85e75502e94e76a6781c409f3f2ec3d112219,
  0x03b00e3b5b77884bf3cae204c4b4eac003601da75f96982ffcb3dcb29c5ee419b9,
  0x03c1f3c0874cfe34b8131af34699589aacec4093399739ae352e8a46f80a6f6837]

/-- The bytes of a number, the most significant one first. -/
def toBytes : ℕ → ℕ → Bytes
  | 0, _ => []
  | n + 1, k => toBytes n (k / 256) ++ [UInt8.ofNat (k % 256)]

/-- The keys of the challenge, as bytes. -/
def challengeKeyBytes : List Bytes := challengeKeys.map (toBytes 33)

/-- `CHALLENGE`: 11 of the 15 keys. -/
def challenge : Script :=
  0x5b :: (challengeKeyBytes.flatMap fun key => 0x21 :: key) ++ [0x5f, 0xae]

/-- What the network says about signatures. -/
structure Verifier where
  isRegtest : Bool

/-- On the regression test network blocks are not signed. -/
def Verifier.new (network : ElementsNetwork) : Verifier := ⟨decide (network = .elementsRegtest)⟩

variable {Key Signature : Type}

/-- The first element from the top as a number; an empty one is a panic. -/
def popCount : List Bytes → Call Error (ℕ × List Bytes)
  | [] => .error (.error .invalidHeaders)
  | data :: stack => do
    let count ← unwrap data.head?
    return (count.toNat, stack)

/-- The given number of elements, as they were pushed. -/
def drain (count : ℕ) (stack : List Bytes) : Call Error (List Bytes × List Bytes) := do
  ensure (decide (count ≤ stack.length)) .invalidHeaders
  return ((stack.take count).reverse, stack.drop count)

/-- `OP_CHECKMULTISIG`, on the stack with its top first. -/
def checkMultisig (lib : LiquidLib Key Signature) (hash : BlockHash) (stack : List Bytes) :
    Call Error (List Bytes) := do
  let (totalPubkeys, stack) ← popCount stack
  let (els, stack) ← drain totalPubkeys stack
  let pubkeys ← els.mapM fun el => okOr (lib.parseKey el) .invalidHeaders
  let (requiredSig, stack) ← popCount stack
  let (els, stack) ← drain requiredSig stack
  let signatures ← els.mapM fun el => okOr (lib.parseSignature el) .invalidHeaders
  let verified := firstFit (lib.verify hash) pubkeys signatures
  if verified = requiredSig then
    match stack with
    | [] => .error (.error .invalidHeaders)
    | _ :: stack => return stack
  else .error (.error .invalidHeaders)

/-- `process_instr`. -/
def processInstr (lib : LiquidLib Key Signature) (hash : BlockHash) (stack : List Bytes) :
    Option Instruction → Call Error (List Bytes)
  | some (.pushBytes data) => return data :: stack
  | some (.pushNum val) => return [val] :: stack
  | some .checkMultisig => checkMultisig lib hash stack
  | some .other => .error (.error .invalidHeaders)
  | none => .error (.error .invalidHeaders)

/-- `verify_header`. -/
def Verifier.verifyHeader (lib : LiquidLib Key Signature) (verifier : Verifier)
    (header : LiquidHeader) : Call Error Unit :=
  let hash := lib.blockHash header
  if hash = lib.genesis ∨ verifier.isRegtest = true then .ok ()
  else
    match header.ext with
    | .proof headerChallenge solution => do
      ensure (decide (headerChallenge = challenge)) .invalidHeaders
      let stack ← (lib.instructions solution ++ lib.instructions headerChallenge).foldlM
        (processInstr lib hash) []
      ensure stack.isEmpty .invalidHeaders
    | .dynafed => .error (.error .invalidHeaders)

/-- `verify_tx_proof`. -/
def Verifier.verifyTxProof (lib : LiquidLib Key Signature) (blocks : BlockLib) (verifier : Verifier)
    (txid : Txid) (merkle : GetMerkleRes) (header : LiquidHeader) : Call Error Unit := do
  verifier.verifyHeader lib header
  ensure (decide (header.merkleRoot = computeMerkleRoot blocks txid merkle)) .invalidHeaders

/-! ### Running the challenge -/

section Challenge

variable {lib : LiquidLib Key Signature} {hash : BlockHash} {keys : List Key}

/-- What the libraries make of the challenge: 11, the keys, 15 and the check, and the keys
themselves. -/
structure ReadsChallenge (lib : LiquidLib Key Signature) (keys : List Key) : Prop where
  instructions : lib.instructions challenge =
    some (.pushNum 11) :: challengeKeyBytes.map (fun key => some (.pushBytes key)) ++
      [some (.pushNum 15), some .checkMultisig]
  keys : List.Forall₂ (fun bytes key => lib.parseKey bytes = some key) challengeKeyBytes keys

theorem length_challengeKeyBytes : challengeKeyBytes.length = 15 := List.length_map _

theorem pushes (data : List Bytes) (stack : List Bytes) :
    (data.map fun d => some (Instruction.pushBytes d)).foldlM (processInstr lib hash) stack =
      .ok (data.reverse ++ stack) := by
  induction data generalizing stack with
  | nil => rfl
  | cons d data ih =>
    rw [List.map_cons, List.foldlM_cons, processInstr, pure_bind, ih]
    simp

theorem ok_bind {α β : Type} (a : α) (k : α → Call Error β) : ((Except.ok a : Call Error α) >>= k) = k a :=
  rfl

theorem popCount_cons (count : UInt8) (stack : List Bytes) :
    popCount ([count] :: stack) = .ok (count.toNat, stack) := rfl

theorem drain_append {els : List Bytes} {count : ℕ} (h : els.length = count) (stack : List Bytes) :
    drain count (els.reverse ++ stack) = .ok (els, stack) := by
  have hlen : els.reverse.length = count := by rw [List.length_reverse, h]
  simp only [drain, bind_eq_ok, ensure_eq_ok, pure_eq_ok, Prod.mk.injEq, exists_const,
    decide_eq_true_eq, List.length_append]
  refine ⟨by omega, ?_, List.drop_left' hlen⟩
  rw [List.take_left' hlen, List.reverse_reverse]

theorem drain_eq_ok {count : ℕ} {stack els rest : List Bytes} (h : drain count stack = .ok (els, rest)) :
    stack = els.reverse ++ rest ∧ els.length = count := by
  simp only [drain, bind_eq_ok, ensure_eq_ok, pure_eq_ok, Prod.mk.injEq, exists_const,
    decide_eq_true_eq] at h
  obtain ⟨hle, rfl, rfl⟩ := h
  rw [List.reverse_reverse, List.take_append_drop, List.length_reverse, List.length_take]
  exact ⟨rfl, Nat.min_eq_left hle⟩

/-- The check of the challenge takes 11 signatures, which belong to keys in their order, and one
more element. -/
theorem checkMultisig_challenge (hreads : ReadsChallenge lib keys) {stack rest : List Bytes} :
    checkMultisig lib hash ([15] :: (challengeKeyBytes.reverse ++ [11] :: stack)) = .ok rest ↔
      ∃ els signatures dummy, stack = els.reverse ++ dummy :: rest ∧ els.length = 11 ∧
        List.Forall₂ (fun el signature => lib.parseSignature el = some signature) els signatures ∧
        InOrder (lib.verify hash) signatures keys := by
  -- the keys of the challenge can all be read
  have hkeys : challengeKeyBytes.mapM (fun el => okOr (lib.parseKey el) Error.invalidHeaders) =
      .ok keys :=
    mapM_of_forall₂ (hreads.keys.imp fun _ _ h => okOr_eq_ok.mpr h)
  have hlen : challengeKeyBytes.length = (15 : UInt8).toNat := length_challengeKeyBytes
  simp only [checkMultisig, popCount_cons, ok_bind, drain_append hlen, hkeys]
  constructor
  · intro h
    simp only [bind_eq_ok] at h
    -- the script finds its signatures on the stack, below the keys
    obtain ⟨⟨els, stack'⟩, hdrain, signatures, hsignatures, h⟩ := h
    obtain ⟨rfl, hlength⟩ := drain_eq_ok hdrain
    split at h
    · rename_i hverified
      split at h
      · cases h
      · rename_i dummy rest' hstack
        rw [pure_eq_ok] at h
        simp only at hstack
        subst h hstack
        have hparsed := (mapM_eq_ok hsignatures).imp fun _ _ => okOr_eq_ok.mp
        refine ⟨els, signatures, dummy, rfl, hlength, hparsed, ?_⟩
        -- each signature has found a key, in the order of the keys
        rw [← firstFit_eq_length_iff, hverified, ← hparsed.length_eq, hlength]
    · cases h
  · -- conversely, signatures in order are all matched
    rintro ⟨els, signatures, dummy, rfl, hlength, hparsed, horder⟩
    have hsignatures : els.mapM (fun el => okOr (lib.parseSignature el) Error.invalidHeaders) =
        .ok signatures :=
      mapM_of_forall₂ (hparsed.imp fun _ _ => okOr_eq_ok.mpr)
    have hlength' : els.length = (11 : UInt8).toNat := hlength
    have hverified : firstFit (lib.verify hash) keys signatures = (11 : UInt8).toNat := by
      rw [(firstFit_eq_length_iff keys signatures).mpr horder, ← hparsed.length_eq, hlength']
    simp only [drain_append hlength', ok_bind, hsignatures, if_pos hverified]
    rfl

theorem verifyHeader_eq_ok (hreads : ReadsChallenge lib keys) {header : LiquidHeader}
    (hfirst : lib.blockHash header ≠ lib.genesis) :
    (Verifier.new .liquid).verifyHeader lib header = .ok () ↔
      ∃ solution els signatures dummy, header.ext = .proof challenge solution ∧
        (lib.instructions solution).foldlM (processInstr lib (lib.blockHash header)) [] =
          .ok (els.reverse ++ [dummy]) ∧ els.length = 11 ∧
        List.Forall₂ (fun el signature => lib.parseSignature el = some signature) els signatures ∧
        InOrder (lib.verify (lib.blockHash header)) signatures keys := by
  have hnot : ¬ (lib.blockHash header = lib.genesis ∨ (Verifier.new .liquid).isRegtest = true) := by
    rw [not_or]
    exact ⟨hfirst, by decide⟩
  -- the challenge pushes its keys and checks the signatures
  have hrun : ∀ stack, (lib.instructions challenge).foldlM (processInstr lib (lib.blockHash header))
      stack = checkMultisig lib (lib.blockHash header)
        ([15] :: (challengeKeyBytes.reverse ++ [11] :: stack)) := by
    intro stack
    rw [hreads.instructions, List.cons_append, List.foldlM_cons, processInstr, pure_bind,
      List.foldlM_append, pushes, ok_bind, List.foldlM_cons, processInstr, pure_bind, List.foldlM_cons,
      processInstr]
    exact bind_pure _
  simp only [Verifier.verifyHeader, if_neg hnot]
  cases hext : header.ext with
  | dynafed => simp
  -- a block whose signers are elected is refused
  | proof headerChallenge solution =>
    simp only [bind_eq_ok, ensure_eq_ok, exists_const, decide_eq_true_eq, List.foldlM_append,
      BlockExtData.proof.injEq, List.isEmpty_iff]
    constructor
    · -- the stack that the solution leaves behind is what the challenge consumes
      rintro ⟨rfl, _, ⟨stack, hsolution, hchallenge⟩, rfl⟩
      rw [hrun, checkMultisig_challenge hreads] at hchallenge
      obtain ⟨els, signatures, dummy, rfl, hlength, hparsed, horder⟩ := hchallenge
      exact ⟨solution, els, signatures, dummy, ⟨rfl, rfl⟩, hsolution, hlength, hparsed, horder⟩
    · rintro ⟨_, els, signatures, dummy, ⟨rfl, rfl⟩, hsolution, hlength, hparsed, horder⟩
      refine ⟨rfl, [], ⟨_, hsolution, ?_⟩, rfl⟩
      rw [hrun, checkMultisig_challenge hreads]
      exact ⟨els, signatures, dummy, rfl, hlength, hparsed, horder⟩

/-- A header other than the first is accepted if and only if its solution leaves 11 signatures on
one more element, and the signatures belong to keys of the challenge in their order.  So 11 of the
keys have signed the block, whatever the solution does. -/
theorem verifyHeader_iff (hreads : ReadsChallenge lib keys) {header : LiquidHeader}
    (hfirst : lib.blockHash header ≠ lib.genesis) :
    ((Verifier.new .liquid).verifyHeader lib header = .ok () ↔
      ∃ solution els signatures dummy, header.ext = .proof challenge solution ∧
        (lib.instructions solution).foldlM (processInstr lib (lib.blockHash header)) [] =
          .ok (els.reverse ++ [dummy]) ∧ els.length = 11 ∧
        List.Forall₂ (fun el signature => lib.parseSignature el = some signature) els signatures ∧
        InOrder (lib.verify (lib.blockHash header)) signatures keys) ∧
    ((Verifier.new .liquid).verifyHeader lib header = .ok () →
      ∃ signers : List Key, signers.Sublist keys ∧ signers.length = 11 ∧
        ∀ key ∈ signers, ∃ signature, lib.verify (lib.blockHash header) signature key = true) := by
  refine ⟨verifyHeader_eq_ok hreads hfirst, fun h => ?_⟩
  obtain ⟨_, els, signatures, _, _, _, hlength, hparsed, signers, hsub, hverify⟩ :=
    (verifyHeader_eq_ok hreads hfirst).mp h
  refine ⟨signers, hsub, ?_, fun key hkey => ?_⟩
  · rw [← hverify.length_eq, ← hparsed.length_eq, hlength]
  · obtain ⟨signature, _, hsigned⟩ := Forall₂.exists_of_mem hverify hkey
    exact ⟨signature, hsigned⟩

/-- A solution that checks signatures on an empty string is a panic. -/
theorem verifyHeader_panics {header : LiquidHeader} {solution : Script} {rest : List (Option Instruction)}
    (hfirst : lib.blockHash header ≠ lib.genesis) (hext : header.ext = .proof challenge solution)
    (hsolution : lib.instructions solution =
      some (.pushBytes []) :: some .checkMultisig :: rest) :
    (Verifier.new .liquid).verifyHeader lib header = .error .panic := by
  have hnot : ¬ (lib.blockHash header = lib.genesis ∨ (Verifier.new .liquid).isRegtest = true) := by
    rw [not_or]
    exact ⟨hfirst, by decide⟩
  simp only [Verifier.verifyHeader, if_neg hnot, hext, hsolution]
  rfl

end Challenge

/-! ### A signed block -/

namespace Signed

/-- Libraries for which each signature is right, and the script of one byte pushes twelve
strings. -/
def libs : LiquidLib Bytes Bytes where
  blockHash := fun header => header.merkleRoot
  genesis := .zero
  instructions := fun script =>
    if script = challenge then
      some (.pushNum 11) :: challengeKeyBytes.map (fun key => some (.pushBytes key)) ++
        [some (.pushNum 15), some .checkMultisig]
    else List.replicate 12 (some (.pushBytes [1]))
  parseKey := some
  parseSignature := some
  verify := fun _ _ _ => true

theorem reads : ReadsChallenge libs challengeKeyBytes where
  instructions := by simp only [libs, if_true]
  keys := List.forall₂_same.mpr fun _ _ => rfl

def header : LiquidHeader := ⟨⟨List.replicate 32 1, List.length_replicate⟩, .proof challenge [0]⟩

end Signed

theorem verifyHeader_iff_signed : (Verifier.new .liquid).verifyHeader Signed.libs Signed.header = .ok () := by
  refine (verifyHeader_iff Signed.reads (by decide)).1.mpr ⟨[0], List.replicate 11 [1],
    List.replicate 11 [1], [1], rfl, ?_, rfl, List.forall₂_same.mpr fun _ _ => rfl, ?_⟩
  · have hne : [(0 : UInt8)] ≠ challenge := by
      intro h
      exact absurd (List.cons.inj h).1 (by decide)
    have hread : Signed.libs.instructions [0] = List.replicate 12 (some (.pushBytes [1])) := by
      simp only [Signed.libs, if_neg hne]
    rw [hread]
    rfl
  · exact ⟨challengeKeyBytes.take 11, List.take_sublist _ _, by
      rw [List.forall₂_iff_zip]
      exact ⟨by simp [length_challengeKeyBytes], fun _ => rfl⟩⟩

end SideSwap.Gdk
