import SideSwap.Gdk.Headers

/-!
# Cross-validation of the chain of headers

`spv.rs` compares the chain of headers with those of other servers.  From the tip of such a server
it goes backwards, in chunks, until it finds a header of its own chain (`getForkBranch`), and
compares the work on the two branches (`spvCrossValidate`).  The `SpvCrossValidator` asks some
servers in each round and keeps a result (`validate`).

The servers are parameters and may answer anything.  Heights are `u32`s and wrap: above a tip of
height `2 ^ 32 - 1` the loop starts from 0.  `fuel` bounds the number of chunks, and a loop that is
stopped by it has the result `unending`, which is none of the source.
-/

namespace SideSwap.Gdk

open Libwally Call

/-- How many headers are asked for at first. -/
def initChunkSize : ℕ := 5

/-- How many headers are asked for at most. -/
def maxChunkSize : ℕ := 200

/-- How deep a fork is followed. -/
def maxForkDepth : ℕ := diffchangeInterval * 3

/-- How many servers are asked in one round. -/
def serversPerRound : ℕ := 3

/-- A difference of `u32`s, which wraps. -/
def subU32 (a b : ℕ) : ℕ := (a + 2 ^ 32 - b) % 2 ^ 32

/-- A sum of `Uint256`s, which wraps. -/
def addWork (a b : ℕ) : ℕ := (a + b) % 2 ^ 256

/-- Why a server says nothing about the chain. -/
inductive CrossValidationError where
  | incompleteHeaders
  | invalidHashChain
  | invalidDifficulty
  | invalidPow
  | invalidRetarget
  | unsensibleTarget
  | forkDepthExceeded
  | knownAncestorMismatch
  | gdkError (e : Error)
  | electrumError
  /-- the loop over the chunks does not end -/
  | unending
deriving DecidableEq

/-- The conversion of an error by `?`. -/
def liftGdk {α : Type} : Call Error α → Call CrossValidationError α
  | .ok a => .ok a
  | .error (.error e) => .error (.error (.gdkError e))
  | .error .panic => .error .panic

/-- What another server answers, if it does: its tip with its height, a header, and a number of
headers from a height on. -/
structure RemoteServer where
  tip : Option (Header × ℕ)
  blockHeader : ℕ → Option Header
  blockHeaders : ℕ → ℕ → Option (List Header)

/-- `verify_retarget`. -/
def verifyRetarget (lib : BlockLib) (retargetBlock periodFirst periodLast : Header) :
    Call CrossValidationError Unit :=
  ensure (decide (retargetBlock.bits =
    lib.compactTarget (calcDifficultyRetarget lib periodFirst periodLast))) .invalidRetarget

/-! ### The branch of a server -/

/-- A retarget block that is still to be verified, and the last block of the period before it. -/
structure Retarget where
  height : ℕ
  block : Header
  periodLast : Option Header

/-- The state of the loops of `get_fork_branch`. -/
structure ForkScan where
  currHeight : ℕ
  totalForkWork : ℕ
  currRetarget : Option Retarget
  lastHeader : Option Header

/-- What a loop does not change: the chain, the server's tip, the height that is not gone below, and
the threshold for targets. -/
structure ForkInput where
  chain : HeadersChain
  tipHeight : ℕ
  heightLimit : ℕ
  threshold : ℕ

/-- A block properly connects with its parent. -/
def checkChild (lib : BlockLib) (height : ℕ) (header : Header) :
    Option Header → Call CrossValidationError Unit
  | none => return ()
  | some child => do
    ensure (decide (child.prevBlockhash = lib.blockHash header)) .invalidHashChain
    ensure (decide (height % diffchangeInterval = diffchangeInterval - 1) ||
      decide (child.bits = header.bits)) .invalidDifficulty

/-- Whether a header is one of the chain. -/
def isCommon (lib : BlockLib) (chain : HeadersChain) (height : ℕ) (header : Header) :
    Call CrossValidationError Bool :=
  if height ≤ chain.height then do
    let own ← liftGdk (chain.get height)
    return decide (lib.blockHash own = lib.blockHash header)
  else return false

/-- The retarget block that is to be verified after a header. -/
def nextRetarget (lib : BlockLib) (height : ℕ) (header : Header) (curr : Option Retarget) :
    Call CrossValidationError (Option Retarget) :=
  if height % diffchangeInterval = 0 then return some ⟨height, header, none⟩
  else
    match curr with
    | none => return none
    | some retarget =>
      if height % diffchangeInterval = diffchangeInterval - 1 then
        return some { retarget with periodLast := some header }
      else if height % diffchangeInterval = 1 then do
        let periodLast ← unwrap retarget.periodLast
        verifyRetarget lib retarget.block header periodLast
        return none
      else return some retarget

/-- One round of the inner loop, and whether the header is the common ancestor. -/
def ForkScan.header (lib : BlockLib) (input : ForkInput) (s : ForkScan) (header : Header) :
    Call CrossValidationError (ForkScan × Bool) := do
  let height := subU32 s.currHeight 1
  checkChild lib height header s.lastHeader
  if ← isCommon lib input.chain height header then return ({ s with currHeight := height }, true)
  else do
    ensure (decide (input.tipHeight - height < maxForkDepth)) .forkDepthExceeded
    ensure (decide (input.heightLimit < height)) .knownAncestorMismatch
    ensure (lib.validatePow header) .invalidPow
    ensure (decide (lib.target header < input.threshold)) .unsensibleTarget
    let retarget ← nextRetarget lib height header s.currRetarget
    return (⟨height, addWork s.totalForkWork (lib.work header), retarget, some header⟩, false)

/-- The inner loop, over the headers of a chunk from the last one on. -/
def ForkScan.headers (lib : BlockLib) (input : ForkInput) :
    ForkScan → List Header → Call CrossValidationError (ForkScan × Bool)
  | s, [] => return (s, false)
  | s, header :: rest => do
    let (s, common) ← s.header lib input header
    if common then return (s, true) else s.headers lib input rest

/-- The outer loop, over the chunks.  Where it starts from height 0 with no lower limit, it asks for
no headers, and goes on if it gets none. -/
def scanFork (lib : BlockLib) (input : ForkInput) (server : RemoteServer) :
    (fuel chunkSize : ℕ) → ForkScan → Call CrossValidationError ForkScan
  | 0, _, _ => .error (.error .unending)
  | fuel + 1, chunkSize, s => do
    let start := max (s.currHeight - chunkSize) input.heightLimit
    let size := subU32 s.currHeight start
    let chunk ← okOr (server.blockHeaders start size) .electrumError
    ensure (decide (chunk.length = size)) .incompleteHeaders
    let (s, common) ← s.headers lib input chunk.reverse
    if common then return s
    else scanFork lib input server fuel (min (chunkSize / 2 * 3) maxChunkSize) s

/-- The headers of a server that are not in the chain. -/
structure ForkBranch where
  tipHeight : ℕ
  commonAncestor : ℕ
  totalForkWork : ℕ
deriving DecidableEq

/-- The block before a retarget block, which may be one of the chain. -/
def Retarget.last (chain : HeadersChain) (retarget : Retarget) : Call CrossValidationError Header :=
  match retarget.periodLast with
  | some header => return header
  | none => liftGdk (chain.get (retarget.height - 1))

/-- The last retarget, which is verified against the chain. -/
def checkPending (lib : BlockLib) (chain : HeadersChain) :
    Option Retarget → Call CrossValidationError Unit
  | none => return ()
  | some retarget => do
    let periodFirst ← liftGdk (chain.get (retarget.height - diffchangeInterval))
    let periodLast ← retarget.last chain
    verifyRetarget lib retarget.block periodFirst periodLast

/-- `get_fork_branch`. -/
def getForkBranch (lib : BlockLib) (fuel : ℕ) (chain : HeadersChain) (server : RemoteServer)
    (remoteTipHeight : ℕ) (knownAncestor : Option ℕ) : Call CrossValidationError ForkBranch := do
  let input : ForkInput :=
    { chain := chain, tipHeight := remoteTipHeight, heightLimit := knownAncestor.getD 0
      threshold := lib.target chain.last * 4 % 2 ^ 256 }
  let s ← scanFork lib input server fuel initChunkSize ⟨(remoteTipHeight + 1) % 2 ^ 32, 0, none, none⟩
  ensure (knownAncestor.all fun expected => decide (expected = s.currHeight)) .knownAncestorMismatch
  checkPending lib chain s.currRetarget
  return ⟨remoteTipHeight, s.currHeight, s.totalForkWork⟩

/-! ### The result of a server -/

/-- The address of a server. -/
inductive ElectrumUrl where
  | tls (url : String) (validate : Bool)
  | plaintext (url : String)
deriving DecidableEq

/-- A failed validation, with the work that our chain has to gain. -/
structure CrossValidationInvalid where
  ourHeight : ℕ
  commonAncestor : ℕ
  longestHeight : ℕ
  longestWork : ℕ
  workDiff : ℕ
  originServer : ElectrumUrl
deriving DecidableEq

/-- The result of the rounds so far. -/
inductive CrossValidationResult where
  | valid
  | invalid (inv : CrossValidationInvalid)
deriving DecidableEq

/-- The work of the chain's headers above a height; one that is missing is a panic. -/
def workSince {ε : Type} (lib : BlockLib) (chain : HeadersChain) (height : ℕ) : Call ε ℕ := do
  let headers ← (List.range' (height + 1) (chain.height - height)).mapM fun h => unwrap chain.file[h]?
  return headers.foldl (fun total header => addWork total (lib.work header)) 0

/-- The comparison with the branch of a server. -/
def compareFork (lib : BlockLib) (chain : HeadersChain) (url : ElectrumUrl) (fork : ForkBranch) :
    Call CrossValidationError CrossValidationResult := do
  let ourWork ← workSince lib chain fork.commonAncestor
  if fork.totalForkWork ≤ ourWork then return .valid
  else
    return .invalid
      { ourHeight := chain.height, longestHeight := fork.tipHeight, longestWork := fork.totalForkWork
        commonAncestor := fork.commonAncestor, workDiff := fork.totalForkWork - ourWork
        originServer := url }

/-- Whether the remote tip lags behind the local one. -/
def remoteLags (lib : BlockLib) (chain : HeadersChain) (tip : Header) (tipHeight : ℕ) :
    Call CrossValidationError Bool :=
  if tipHeight < chain.height then isCommon lib chain tipHeight tip else return false

/-- Whether the local tip lags behind the remote one. -/
def localLags (lib : BlockLib) (chain : HeadersChain) (server : RemoteServer) (tipHeight : ℕ) :
    Call CrossValidationError Bool :=
  if chain.height < tipHeight then do
    let header ← okOr (server.blockHeader chain.height) .electrumError
    return decide (lib.blockHash header = lib.blockHash chain.last)
  else return false

/-- `spv_cross_validate`. -/
def spvCrossValidate (lib : BlockLib) (fuel : ℕ) (chain : HeadersChain) (url : ElectrumUrl)
    (server : RemoteServer) : Call CrossValidationError CrossValidationResult := do
  let (tip, height) ← okOr server.tip .electrumError
  let tipHeight := height % 2 ^ 32
  if tipHeight = chain.height ∧ lib.blockHash tip = lib.blockHash chain.last then return .valid
  else if ← remoteLags lib chain tip tipHeight then return .valid
  else if ← localLags lib chain server tipHeight then do
    let fork ← getForkBranch lib fuel chain server tipHeight (some chain.height)
    return .invalid
      { ourHeight := chain.height, longestHeight := fork.tipHeight
        longestWork := fork.totalForkWork, commonAncestor := fork.commonAncestor
        workDiff := fork.totalForkWork, originServer := url }
  else do
    let fork ← getForkBranch lib fuel chain server tipHeight none
    compareFork lib chain url fork

/-! ### The validator -/

/-- A round does not end, as a server keeps it going. -/
inductive Unending where
  | unending
deriving DecidableEq

/-- The servers and the result that are kept from round to round. -/
structure SpvCrossValidator where
  servers : List ElectrumUrl
  lastResult : CrossValidationResult
deriving DecidableEq

/-- `is_resolved`: whether enough work was added to the chain since. -/
def CrossValidationInvalid.isResolved (lib : BlockLib) (inv : CrossValidationInvalid)
    (chain : HeadersChain) : Call Unending Bool := do
  let localWorkSince ← workSince lib chain inv.ourHeight
  return decide (inv.workDiff ≤ localWorkSince)

/-- `merge`. -/
def CrossValidationResult.merge : CrossValidationResult → CrossValidationResult → CrossValidationResult
  | .valid, .invalid b => .invalid b
  | .invalid a, .invalid b => if b.workDiff < a.workDiff then .invalid b else .invalid a
  | curr, .valid => curr

/-- Some grace for a chain that is one block behind the longest one. -/
def CrossValidationResult.grace : CrossValidationResult → CrossValidationResult
  | .valid => .valid
  | .invalid inv =>
    if inv.commonAncestor = inv.ourHeight ∧ inv.ourHeight + 1 = inv.longestHeight then .valid
    else .invalid inv

/-- The result that a round starts with. -/
def SpvCrossValidator.startResult (lib : BlockLib) (v : SpvCrossValidator) (chain : HeadersChain) :
    Call Unending CrossValidationResult :=
  match v.lastResult with
  | .valid => return .valid
  | .invalid inv => do
    let resolved ← inv.isResolved lib chain
    return if resolved then .valid else .invalid inv

/-- The servers of a round, of which the first is the one that the last failure came from. -/
def SpvCrossValidator.roundServers (v : SpvCrossValidator)
    (shuffle : List ElectrumUrl → List ElectrumUrl) : List ElectrumUrl :=
  let random := (shuffle v.servers).take serversPerRound
  match v.lastResult with
  | .valid => random
  | .invalid inv => inv.originServer :: random

/-- The results of the servers of a round are merged; one that fails is skipped, a panic ends the
round, and a server that keeps its loop going keeps the round. -/
def mergeResults (lib : BlockLib) (fuel : ℕ) (chain : HeadersChain)
    (remote : ElectrumUrl → RemoteServer) :
    CrossValidationResult → List ElectrumUrl → Call Unending CrossValidationResult
  | curr, [] => return curr
  | curr, url :: rest =>
    match spvCrossValidate lib fuel chain url (remote url) with
    | .ok result => mergeResults lib fuel chain remote (curr.merge result) rest
    | .error (.error .unending) => .error (.error .unending)
    | .error (.error _) => mergeResults lib fuel chain remote curr rest
    | .error .panic => .error .panic

/-- `validate`, with the validator that is left. -/
def SpvCrossValidator.validate (lib : BlockLib) (fuel : ℕ) (v : SpvCrossValidator)
    (chain : HeadersChain) (shuffle : List ElectrumUrl → List ElectrumUrl)
    (remote : ElectrumUrl → RemoteServer) : Call Unending SpvCrossValidator := do
  let start ← v.startResult lib chain
  let merged ← mergeResults lib fuel chain remote start (v.roundServers shuffle)
  return { v with lastResult := merged.grace }

end SideSwap.Gdk
