import SideSwap.Gdk.Transaction

/-!
# Block headers

The chain of Bitcoin headers that `gdk_electrum` keeps in a file: opening it (`HeadersChain.new`),
adding headers (`push`), taking some off again after a reorganisation (`remove`), and verifying that
a transaction is in a block (`verifyTxProof`).  `spv_verify_tx`, which is called for one transaction
at a time, opens the file in each call.

The file is the list of the headers in it, each of which takes 80 bytes.  Reading and writing do not
fail otherwise than by reading beyond the end.  `push` writes at a difficulty adjustment and at the
end, but what it keeps of the chain in memory changes with each header.
-/

namespace SideSwap.Gdk

open Libwally Call

/-- The hash of a block's header. -/
abbrev BlockHash := Bytes32

/-- A block's header. -/
structure Header where
  version : ℕ
  prevBlockhash : BlockHash
  merkleRoot : Bytes32
  time : ℕ
  bits : ℕ
  nonce : ℕ
deriving DecidableEq

/-- What `rust-bitcoin` computes, and the blocks that the source fixes. -/
structure BlockLib where
  blockHash : Header → BlockHash
  target : Header → ℕ
  validatePow : Header → Bool
  compactTarget : ℕ → ℕ
  work : Header → ℕ
  genesis : Header
  maxTarget : ℕ
  checkpoints : ℕ → Option BlockHash
  sha256d : Bytes → Bytes32

/-- The blocks of a difficulty period. -/
def diffchangeInterval : ℕ := 2016

/-- The seconds that a period should take. -/
def diffchangeTimespan : ℕ := 14 * 24 * 3600

/-- `calc_difficulty_retarget`; the times are `u32`s and their difference wraps. -/
def calcDifficultyRetarget (lib : BlockLib) (first last : Header) : ℕ :=
  let timespan := (last.time + (2 ^ 32 - first.time % 2 ^ 32)) % 2 ^ 32
  let timespan := min timespan (diffchangeTimespan * 4)
  let timespan := max timespan (diffchangeTimespan / 4)
  min (lib.target last * timespan % 2 ^ 256 / diffchangeTimespan) lib.maxTarget

/-! ### The chain -/

/-- The headers, in a file, with the height and the last header in memory. -/
structure HeadersChain where
  file : List Header
  height : ℕ
  last : Header
deriving DecidableEq

namespace HeadersChain

/-- `new`: the chain of a file, which is made if there is none. -/
def new (lib : BlockLib) : Option (List Header) → Call Error HeadersChain
  | none => return ⟨[lib.genesis], 0, lib.genesis⟩
  | some file => do
    let last ← okOr file.getLast? .io
    return ⟨file, file.length - 1, last⟩

/-- Read a header from the file. -/
def get (chain : HeadersChain) (height : ℕ) : Call Error Header := okOr chain.file[height]? .io

/-- `remove`, with the chain that is left and the result. -/
def remove (chain : HeadersChain) (headersToRemove : ℕ) : HeadersChain × Call Error Unit :=
  let newHeight := chain.height - min headersToRemove chain.height
  match chain.get newHeight with
  | .error e => (chain, .error e)
  | .ok last => (⟨chain.file.take (newHeight + 1), newHeight, last⟩, .ok ())

end HeadersChain

/-- The state of `push`: the chain, the headers that are not written yet, and the current bits. -/
structure Pushing where
  chain : HeadersChain
  serialized : List Header
  currBits : ℕ

namespace Pushing

/-- Write what has been collected. -/
def flush (p : Pushing) : Pushing :=
  { p with chain := { p.chain with file := p.chain.file ++ p.serialized }, serialized := [] }

/-- The last check of a header, and its addition. -/
def accept (lib : BlockLib) (p : Pushing) (newHeader : Header) : Pushing × Call Error Unit :=
  let newHeight := p.chain.height + 1
  if (lib.checkpoints newHeight).any fun hash => decide (hash ≠ lib.blockHash newHeader) then
    (p, .error (.error .invalidHeaders))
  else
    ({ p with
        serialized := p.serialized ++ [newHeader]
        chain := { p.chain with last := newHeader, height := newHeight } }, .ok ())

/-- One round of the loop of `push`. -/
def header (lib : BlockLib) (p : Pushing) (newHeader : Header) : Pushing × Call Error Unit :=
  let newHeight := p.chain.height + 1
  if lib.blockHash p.chain.last ≠ newHeader.prevBlockhash ∨ lib.validatePow newHeader = false then
    (p, .error (.error .invalidHeaders))
  else if newHeight % diffchangeInterval = 0 then
    let p := p.flush
    match p.chain.get (newHeight - diffchangeInterval) with
    | .error e => (p, .error e)
    | .ok first =>
      if newHeader.bits ≠ lib.compactTarget (calcDifficultyRetarget lib first p.chain.last) then
        (p, .error (.error .invalidHeaders))
      else ({ p with currBits := newHeader.bits }).accept lib newHeader
  else if newHeader.bits ≠ p.currBits then (p, .error (.error .invalidHeaders))
  else p.accept lib newHeader

/-- Check and collect the headers one by one; the first that fails ends the call. -/
def headers (lib : BlockLib) (p : Pushing) : List Header → HeadersChain × Call Error Unit
  | [] => (p.flush.chain, .ok ())
  | newHeader :: rest =>
    match p.header lib newHeader with
    | (p, .ok ()) => p.headers lib rest
    | (p, .error e) => (p.chain, .error e)

end Pushing

/-- `push`, with the chain that is left and the result. -/
def HeadersChain.push (lib : BlockLib) (chain : HeadersChain) (newHeaders : List Header) :
    HeadersChain × Call Error Unit :=
  Pushing.headers lib ⟨chain, [], chain.last.bits⟩ newHeaders

/-! ### Proofs -/

/-- `GetMerkleRes`: the position of a transaction in its block and the neighbours on the way up. -/
structure GetMerkleRes where
  pos : ℕ
  merkle : List Bytes32

/-- The same bytes in the other order. -/
def Bytes32.reverse (b : Bytes32) : Bytes32 := ⟨b.bytes.reverse, by rw [List.length_reverse, b.length]⟩

/-- The loop of `compute_merkle_root`. -/
def merkleLoop (lib : BlockLib) : ℕ → Bytes32 → List Bytes32 → Bytes32
  | _, current, [] => current
  | pos, current, hash :: rest =>
    let hash := hash.reverse
    let current :=
      if pos % 2 = 0 then lib.sha256d (current.bytes ++ hash.bytes)
      else lib.sha256d (hash.bytes ++ current.bytes)
    merkleLoop lib (pos / 2) current rest

/-- The root that a proof leads to. -/
def computeMerkleRoot (lib : BlockLib) (txid : Txid) (merkle : GetMerkleRes) : Bytes32 :=
  merkleLoop lib merkle.pos txid merkle.merkle

/-- A proof must lead to the root in the header of its block. -/
def HeadersChain.verifyTxProof (lib : BlockLib) (chain : HeadersChain) (txid : Txid) (height : ℕ)
    (merkle : GetMerkleRes) : Call Error Unit := do
  let calculatedMerkleRoot := computeMerkleRoot lib txid merkle
  let header ← chain.get height
  ensure (decide (header.merkleRoot = calculatedMerkleRoot)) .invalidHeaders

/-! ### Verifying one transaction -/

/-- What is known of a transaction. -/
inductive SPVVerifyResult where
  | inProgress
  | verified
  | notVerified
  | disabled
  | notLongest
  | unconfirmed
deriving DecidableEq

/-- The question whether a transaction is in a block. -/
structure SPVVerifyTx where
  txid : Txid
  height : ℕ
  encryptionKey : String

/-- The files of `spv_verify_tx` on a network: the headers, and for each encryption key the verified
transactions.  The name of such a file is a hash of the key, and different keys have different
files. -/
structure SpvFiles where
  headers : Option (List Header)
  verified : String → List Txid

/-- The verified transactions of a key are written. -/
def SpvFiles.setVerified (files : SpvFiles) (key : String) (verified : List Txid) : SpvFiles :=
  { files with verified := Function.update files.verified key verified }

/-- What a call of `spv_verify_tx` holds in memory after it opened the files: the verified
transactions of its key, and of the chain its height and its last header. -/
structure SpvOpened where
  verified : List Txid
  height : ℕ
  last : Header

/-- What the server answers, if it does. -/
structure SpvServer where
  proof : Option GetMerkleRes
  headers : Option (List Header)

/-- The first part of `spv_verify_tx` on Bitcoin: a transaction that is in the cache is verified,
and otherwise the chain is opened. -/
def spvOpen (lib : BlockLib) (files : SpvFiles) (input : SPVVerifyTx) :
    Call Error (SpvFiles × Option SpvOpened) := do
  if input.txid ∈ files.verified input.encryptionKey then return (files, none)
  else do
    let chain ← HeadersChain.new lib files.headers
    return ({ files with headers := some chain.file },
      some ⟨files.verified input.encryptionKey, chain.height, chain.last⟩)

/-- The second part, which asks the server for a proof, or for more headers if the chain is not high
enough. -/
def spvAsk (lib : BlockLib) (files : SpvFiles) (opened : SpvOpened) (input : SPVVerifyTx)
    (server : SpvServer) : SpvFiles × Call Error SPVVerifyResult :=
  let chain : HeadersChain := ⟨files.headers.getD [], opened.height, opened.last⟩
  if input.height ≤ chain.height then
    match server.proof with
    | none => (files, .ok .notVerified)
    | some proof =>
      match chain.verifyTxProof lib input.txid input.height proof with
      | .ok () =>
        (files.setVerified input.encryptionKey (opened.verified.insert input.txid), .ok .verified)
      | .error _ => (files, .ok .notVerified)
  else
    match server.headers with
    | none => (files, .error (.error .electrum))
    | some headers =>
      match chain.push lib headers with
      | (chain, .error (.error .invalidHeaders)) =>
        -- a reorganisation: the verified transactions of the other keys stay
        match chain.remove 144 with
        | (chain, .ok ()) =>
          (({ files with headers := some chain.file } : SpvFiles).setVerified input.encryptionKey [],
            .ok .inProgress)
        | (chain, .error e) => ({ files with headers := some chain.file }, .error e)
      | (chain, _) => ({ files with headers := some chain.file }, .ok .inProgress)

/-- `spv_verify_tx` on Bitcoin. -/
def spvVerifyTx (lib : BlockLib) (files : SpvFiles) (input : SPVVerifyTx) (server : SpvServer) :
    SpvFiles × Call Error SPVVerifyResult :=
  match spvOpen lib files input with
  | .error e => (files, .error e)
  | .ok (files, none) => (files, .ok .verified)
  | .ok (files, some opened) => spvAsk lib files opened input server

end SideSwap.Gdk
