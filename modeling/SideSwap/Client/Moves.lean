import SideSwap.Client.Worker
import SideSwap.Lib.History

/-!
# What the worker can do

An abstract view of the worker.  `Core` is the part of its state that decides what is accepted and
signed: the single slots of the wallet, the terms and the coins of the orders, the sign requests
handled so far, and the history.  `Move` lists everything that the handling of a message can do to
it, with the conditions under which it does so.  All other work is the move `quiet`: it only adds
plain events to the history and saves the settings.

`World.core` projects the state of the worker to this view.  The module `Refinement` proves that
every handler makes a chain of moves, so that a property of the moves is one of the worker.
-/

namespace SideSwap.Client

/-! ### The view -/

/-- The slots of the wallet that hold what the user is about to accept or has accepted. -/
structure Wallet where
  activeSwap : Option ActiveSwap
  psbtUtxos : Option (List Utxo)
  internalPeg : Option InternalPeg
  activeSubmit : Option LinkResponse
  activeSign : Option SignNotification

/-- The slots after a login. -/
def Wallet.empty : Wallet := ⟨none, none, none, none, none⟩

/-- The view of the worker. -/
structure Core where
  wallet : Option Wallet
  submitData : Map OrderId SubmitData
  processedSigns : Finset OrderId
  prompts : List SignNotification
  /-- the coins of the maker orders, in memory and on disk -/
  utxosReq : Map OrderId StoredUtxo
  savedReq : Map OrderId StoredUtxo
  /-- the coins of the taker orders -/
  utxosResp : Map OrderId StoredUtxo
  log : List Event

/-- The slots of a wallet. -/
def Context.wallet (c : Context) : Wallet :=
  ⟨c.activeSwap, c.psbtUtxos, c.internalPeg, c.activeSubmit, c.activeSign⟩

/-- What the view shows of the worker. -/
def World.core (w : World) : Core :=
  { wallet := w.data.ctx.map Context.wallet, submitData := w.data.submitData
    processedSigns := w.data.processedSigns, prompts := w.data.pendingSignPrompts
    utxosReq := w.data.settings.utxosReq, savedReq := w.disk.utxosReq
    utxosResp := w.data.utxosResp, log := w.log }

namespace Core

/-- Add an event to the history. -/
def record (c : Core) (e : Event) : Core := { c with log := e :: c.log }

/-- Change the slots, if there is a wallet. -/
def modifyWallet (c : Core) (f : Wallet → Wallet) : Core := { c with wallet := c.wallet.map f }

/-- Add events to the history and save the settings or not. -/
def idle (c : Core) (saves : Bool) (events : List Event) : Core :=
  { c with savedReq := if saves then c.utxosReq else c.savedReq, log := events ++ c.log }

/-- Store the terms of an order. -/
def store (c : Core) (orderId : OrderId) (s : SubmitData) : Core :=
  { c with submitData := c.submitData.insert orderId s }

/-- A sign request is handled once. -/
def process (c : Core) (orderId : OrderId) : Core :=
  { c with processedSigns := insert orderId c.processedSigns }

/-- Take the coins of a maker order out of the settings. -/
def takeReq (c : Core) (X : OrderId) (saves : Bool) : Core :=
  { c with
    utxosReq := c.utxosReq.erase X
    savedReq := if saves then c.utxosReq.erase X else c.savedReq }

/-- Take the coins of a taker order out of memory. -/
def takeResp (c : Core) (X : OrderId) : Core := { c with utxosResp := c.utxosResp.erase X }

/-- Apply a new price to the stored terms, if there are any. -/
def edit (c : Core) (X : OrderId) (price : F64) : Core :=
  { c with
    submitData := match c.submitData[X]?.bind fun s => s.edit price with
      | some s => c.submitData.insert X s
      | none => c.submitData }

/-- The instant swap that has been requested. -/
def activeSwap (c : Core) : Option ActiveSwap := c.wallet.bind Wallet.activeSwap

/-- The coins that were offered for it. -/
def psbtUtxos (c : Core) : Option (List Utxo) := c.wallet.bind Wallet.psbtUtxos

/-- The peg-out under review. -/
def internalPeg (c : Core) : Option InternalPeg := c.wallet.bind Wallet.internalPeg

/-- The order that was shown last for a decision. -/
def activeSubmit (c : Core) : Option LinkResponse := c.wallet.bind Wallet.activeSubmit

/-- The sign request that was shown last. -/
def activeSign (c : Core) : Option SignNotification := c.wallet.bind Wallet.activeSign

end Core

/-! ### Slots -/

/-- A slot after a change of the wallet. -/
theorem Core.slot_modifyWallet {α : Type} (c : Core) {f : Wallet → Wallet}
    (slot : Wallet → Option α) :
    (c.modifyWallet f).wallet.bind slot = c.wallet.bind fun v => slot (f v) :=
  Option.bind_map

/-- A filled slot of a wallet that was written to comes from the wallet before. -/
theorem Core.exists_slot {α : Type} {c c' : Core} {f : Wallet → Wallet} {slot : Wallet → Option α}
    {a : α} (hwallet : c'.wallet = c.wallet.map f) (ha : c'.wallet.bind slot = some a) :
    ∃ v, c.wallet = some v ∧ slot (f v) = some a := by
  rw [hwallet, Option.bind_map] at ha
  exact Option.bind_eq_some_iff.mp ha

/-- A slot of the wallet that is there. -/
theorem Core.slot_of_wallet {α : Type} {c : Core} {v : Wallet} (slot : Wallet → Option α)
    (hv : c.wallet = some v) : c.wallet.bind slot = slot v := by
  rw [hv, Option.bind_some]

/-! ### The history -/

/-- The events that no slot and no store of the view depends on. -/
def Event.plain : Event → Bool
  | .request (.matchRfqAccept ..) _ => false
  | .request (.swap _ (.psbt _)) (.ok _) => false
  | .request (.swap _ (.sign _)) _ => false
  | .request (.addr _) _ => false
  | .request (.edit _ (some _) _) (.ok _) => false
  | .toUi (.submitReview _) => false
  | .started | .received _ | .signPsbt .. | .trySign .. | .prompted _ | .stored _ => false
  | .utxosTaken .. => false
  | .swapPrepared _ | .pegPrepared _ | .pegTaken _ => false
  | _ => true

/-- Only plain events have happened since. -/
def PlainSince (old new : List Event) : Prop := ∃ events, new = events ++ old ∧ ∀ e ∈ events, e.plain

/-- The server has sent the sign request of an order in the handling of this message. -/
def Fetched (X : OrderId) (log : List Event) : Prop :=
  ∃ sign older, PlainSince (.request (.getSign X) (.ok sign) :: older) log

/-- The last message that the worker has received. -/
def lastReceived (log : List Event) : Option Message :=
  History.latest (fun e _ => match e with
    | .received msg => some msg
    | _ => none) log

/-! ### Terms of orders -/

/-- What `verify_amounts` has checked. -/
structure Verified (precision : ℕ) (details : Details) : Prop where
  price : (F64.zero false).lt details.price = true
  fee : details.serverFee = getServerFee details.bitcoinAmount
  bitcoin : details.orderType = .bitcoin →
    assetAmount details.bitcoinAmount details.price precision = some details.assetAmount
  asset : details.orderType = .asset →
    bitcoinAmount details.assetAmount details.price precision = some details.bitcoinAmount

/-- What `try_process_sign` has checked of a sign request before it takes over its terms. -/
structure Agrees (s : SubmitData) (details : Details) : Prop where
  direction : s.sellBitcoin = details.sendBitcoins
  orderType : s.orderType = details.orderType
  asset : s.asset = details.asset
  side : s.side = details.side
  bitcoin : s.orderType = .bitcoin →
    s.serverFee = details.serverFee ∧ s.bitcoinAmount = details.bitcoinAmount
  amount : s.orderType = .asset → s.assetAmount = details.assetAmount
  price : (priceChange details s).eq (F64.zero false) = true ∨ s.side ≠ .responder

/-- A sign request that passes all checks against the stored terms `s`. -/
structure Signable (precision : ℕ) (s : SubmitData) (msg : SignNotification) : Prop where
  orderId : s.orderId = msg.orderId
  verified : Verified precision msg.details
  agrees : Agrees s msg.details

/-! ### Moves -/

/-- An order is signed for a reason: its terms were taken over from a sign request that needs no
prompt, or a decision of the user has taken the prompt. -/
inductive SignReason (w₀ : World) (msg : Message) :
    SignCause → SignNotification → List Event → SubmitData → Prop where
  | auto {before : SubmitData} {precision : ℕ} {m : SignNotification} {older : List Event}
      (signable : Signable precision before m)
      (allowed : autoSignAllowed m.details before = true) :
      SignReason w₀ msg (.auto before precision) m older (before.update m.details)
  | decision {req : SubmitDecision} {m : SignNotification} {s : SubmitData}
      (message : msg = .ui (.submitDecision req)) (accept : req.accept = true)
      (order : m.orderId = req.orderId) (sign : w₀.core.activeSign = some m) (terms : w₀.core.submitData[m.orderId]? = some s) :
      SignReason w₀ msg .decision m w₀.log s

/-- What an accepted decision about the order `X` relies on: the slot of the last reviewed link. -/
structure Submits (w₀ : World) (msg : Message) (X : OrderId) (resp : LinkResponse) : Prop where
  message : ∃ req, msg = .ui (.submitDecision req) ∧ req.accept = true ∧ req.orderId = X
  submit : w₀.core.activeSubmit = some resp
  noSign : ∀ m, w₀.core.activeSign = some m → m.orderId ≠ X

/-- What the handling of `msg`, received in the state `w₀`, can do to instant swaps and peg-outs. -/
inductive SwapMove (h : Host) (w₀ : World) (msg : Message) : Core → Core → Prop where
  -- a swap or a peg-out is prepared
  | swapPrepared {c : Core} {req : SwapRequest} {review : SwapReview} {w : World} (a : ActiveSwap)
      (message : msg = .ui (.swapRequest req)) (kind : req.isPegOut h = false)
      (success : tryProcessSwapRequest h req w₀ = .ok review w)
      (wallet : c.wallet = w₀.core.wallet) (fresh : a.recvAmountAccepted = none) :
      SwapMove h w₀ msg c
        ((c.modifyWallet fun v => { v with activeSwap := some a }).record (.swapPrepared a))
  | pegPrepared {c : Core} {req : SwapRequest} {review : SwapReview} {w : World} (p : InternalPeg)
      (message : msg = .ui (.swapRequest req)) (kind : req.isPegOut h = true)
      (success : tryProcessSwapRequest h req w₀ = .ok review w)
      (wallet : c.wallet = w₀.core.wallet) :
      SwapMove h w₀ msg c
        ((c.modifyWallet fun v => { v with internalPeg := some p }).record (.pegPrepared p))
  -- the server quotes a fee, and the user accepts an amount
  | quoted {c : Core} (fee : Option ℤ) :
      SwapMove h w₀ msg c (c.modifyWallet fun v =>
        { v with activeSwap := v.activeSwap.map fun a => { a with networkFee := fee } })
  | swapAccepted {c : Core} {a : ActiveSwap} {req : SwapAccept} {amount : ℤ}
      (message : msg = .ui (.swapAccept req)) (amount_eq : req.recvAmount = some amount)
      (active : c.activeSwap = some a) (log : c.log = w₀.log) :
      SwapMove h w₀ msg c ((c.modifyWallet fun v =>
        { v with activeSwap := v.activeSwap.map fun a =>
            { a with recvAmountAccepted := some amount } }).record
          (.request (.matchRfqAccept a.orderId amount) (.ok ())))
  | acceptRefused {c : Core} {a : ActiveSwap} (amount : ℤ) (e : String)
      (active : c.activeSwap = some a) :
      SwapMove h w₀ msg c (c.record (.request (.matchRfqAccept a.orderId amount) (.error e)))
  -- the inputs are offered, and the transaction is signed and sent
  | psbtSent {c : Core} {a : ActiveSwap} {info : PsbtInfo} {psbt : String} {older : List Event}
      (active : c.activeSwap = some a)
      (log : c.log = .generatePsbt info a.inputs (some psbt) :: older) :
      SwapMove h w₀ msg c ((c.modifyWallet fun v => { v with psbtUtxos := some a.inputs }).record
        (.request (.swap a.orderId (.psbt psbt)) (.ok ())))
  | swapSigned {c : Core} {a : ActiveSwap} {utxos : List Utxo} (psbt : String)
      (signed : Option String)
      (message : msg = .serverNotification (.swap ⟨a.orderId, .waitSign psbt⟩))
      (active : c.activeSwap = some a) (found : c.psbtUtxos = some utxos)
      (wallet : c.wallet = w₀.core.wallet) (log : c.log = w₀.log) :
      SwapMove h w₀ msg c (c.record (.signPsbt (.swap a.orderId) a.psbtInfo utxos psbt signed))
  | swapSignSent {c : Core} {orderId : OrderId} {info : PsbtInfo} {utxos : List Utxo}
      {psbt signed : String} {older : List Event} (answer : Except String Unit)
      (log : c.log = .signPsbt (.swap orderId) info utxos psbt (some signed) :: older) :
      SwapMove h w₀ msg c (c.record (.request (.swap orderId (.sign signed)) answer))
  -- the slots are emptied
  | swapDropped {c : Core} : SwapMove h w₀ msg c (c.modifyWallet fun v => { v with activeSwap := none })
  | swapsCleared {c : Core} :
      SwapMove h w₀ msg c (c.modifyWallet fun v => { v with activeSwap := none, internalPeg := none })
  | pegTaken {c : Core} {p : InternalPeg} (idle : c.activeSwap = none)
      (active : c.internalPeg = some p) :
      SwapMove h w₀ msg c ((c.modifyWallet fun v => { v with internalPeg := none }).record (.pegTaken p))

/-- What it can do to orders. -/
inductive OrderMove (h : Host) (w₀ : World) (msg : Message) : Core → Core → Prop where
  -- reviews and decisions
  | linkReviewed {c : Core} (X : OrderId) (resp : LinkResponse) (internal autoSign : Bool)
      (linked : .request (.link X) (.ok resp) ∈ c.log) :
      OrderMove h w₀ msg c ((c.modifyWallet fun v => { v with activeSubmit := some resp }).record
        (.toUi (.submitReview (detailsReview resp.details X resp.indexPrice internal autoSign))))
  | submitTaken {c : Core} :
      OrderMove h w₀ msg c (c.modifyWallet fun v => { v with activeSubmit := none })
  | addrSent {c : Core} {resp : LinkResponse} (r : AddrRequest) (answer : Except String Unit)
      (submits : Submits w₀ msg r.orderId resp) (price : r.price = resp.details.price)
      (log : PlainSince w₀.log c.log) :
      OrderMove h w₀ msg c (c.record (.request (.addr r) answer))
  | submitted {c : Core} {resp : LinkResponse} {r : AddrRequest} {older : List Event}
      {precision : ℕ} (txouts : Finset TxOut) (autoSign : Bool)
      (submits : Submits w₀ msg r.orderId resp) (verified : Verified precision resp.details)
      (auto : autoSign = true → resp.details.side = .requestor)
      (log : c.log = .request (.addr r) (.ok ()) :: older) (since : PlainSince w₀.log older)
      (noSign : ∀ m, c.activeSign = some m → m.orderId ≠ r.orderId) :
      OrderMove h w₀ msg c ((c.store r.orderId
        (LinkResponse.submitData resp r.orderId precision txouts autoSign)).record
          (.stored (LinkResponse.submitData resp r.orderId precision txouts autoSign)))
  -- the coins of the orders
  | reqStored {c : Core} {s : SubmitData} {older : List Event} (utxo : StoredUtxo)
      (log : c.log = .stored s :: older) :
      OrderMove h w₀ msg c { c with utxosReq := c.utxosReq.insert s.orderId utxo }
  | respStored {c : Core} {s : SubmitData} {older : List Event} (utxo : StoredUtxo)
      (log : c.log = .stored s :: older) :
      OrderMove h w₀ msg c { c with utxosResp := c.utxosResp.insert s.orderId utxo }
  | reqErased {c : Core} (X : OrderId) (absent : c.utxosReq[X]? = none) :
      OrderMove h w₀ msg c { c with utxosReq := c.utxosReq.erase X }
  | reqTaken {c : Core} {utxo : StoredUtxo} (X : OrderId) (saves : Bool)
      (ok : (∀ n, h.saveSucceeds n = true) → saves = true) (found : c.utxosReq[X]? = some utxo) :
      OrderMove h w₀ msg c ((c.takeReq X saves).record (.utxosTaken .requestor X))
  | respErased {c : Core} (X : OrderId) (absent : c.utxosResp[X]? = none) :
      OrderMove h w₀ msg c { c with utxosResp := c.utxosResp.erase X }
  | respTaken {c : Core} {utxo : StoredUtxo} (X : OrderId) (found : c.utxosResp[X]? = some utxo) :
      OrderMove h w₀ msg c ((c.takeResp X).record (.utxosTaken .responder X))
  -- sign requests
  | signRefused {c : Core} (X : OrderId) : OrderMove h w₀ msg c (c.process X)
  | signQueued {c : Core} {s : SubmitData} {precision : ℕ} (m : SignNotification)
      (new : m.orderId ∉ c.processedSigns) (terms : c.submitData[m.orderId]? = some s)
      (signable : Signable precision s m) :
      OrderMove h w₀ msg c
        ({ (c.process m.orderId).store m.orderId (s.update m.details) with
            prompts := c.prompts ++ [m] }.record (.prompted m))
  | autoSigned {c : Core} {s : SubmitData} {precision : ℕ} (m : SignNotification)
      (new : m.orderId ∉ c.processedSigns) (terms : c.submitData[m.orderId]? = some s)
      (signable : Signable precision s m) (allowed : autoSignAllowed m.details s = true) :
      OrderMove h w₀ msg c (((c.process m.orderId).store m.orderId (s.update m.details)).record
        (.trySign (.auto s precision) m))
  | promptDropped {c : Core} {m : SignNotification} {rest : List SignNotification}
      (queue : c.prompts = m :: rest) : OrderMove h w₀ msg c { c with prompts := rest }
  | promptShown {c : Core} {m : SignNotification} {rest : List SignNotification} {s : SubmitData}
      (internal : Bool) (queue : c.prompts = m :: rest)
      (terms : c.submitData[m.orderId]? = some s) :
      OrderMove h w₀ msg c
        (({ c with prompts := rest }.modifyWallet fun v => { v with activeSign := some m }).record
          (.toUi (.submitReview (s.signReview m.orderId internal))))
  | signTaken {c : Core} {m : SignNotification} {req : SubmitDecision}
      (message : msg = .ui (.submitDecision req)) (accept : req.accept = true)
      (order : m.orderId = req.orderId) (sign : c.activeSign = some m) (start : c = w₀.core) :
      OrderMove h w₀ msg c
        ((c.modifyWallet fun v => { v with activeSign := none }).record (.trySign .decision m))
  | orderSigned {c : Core} {cause : SignCause} {m : SignNotification} {s : SubmitData}
      {older : List Event} (side : OrderSide) (utxos : List Utxo) (signed : Option String)
      (log : c.log = .utxosTaken side m.orderId :: .trySign cause m :: older)
      (reason : SignReason w₀ msg cause m older s) :
      OrderMove h w₀ msg c (c.record
        (.signPsbt (.order cause m.orderId) (s.psbtInfo h.liquidAssetId) utxos m.pset signed))
  -- changes of the stored terms
  | edited {c : Core} (X : OrderId) (price : F64)
      (message : msg = .ui (.editOrder ⟨X, some (.price price)⟩))
      (answer : h.server w₀.calls (.edit X (some price) none) = .ok ()) (start : c = w₀.core) :
      OrderMove h w₀ msg c ((c.edit X price).record (.request (.edit X (some price) none) (.ok ())))
  | completed {c : Core} {s : SubmitData} (X : OrderId) (txid : String)
      (terms : c.submitData[X]? = some s) :
      OrderMove h w₀ msg c (c.store X { s with txid := some txid })
  | cancelled {c : Core} (X : OrderId) :
      OrderMove h w₀ msg c { c with submitData := c.submitData.erase X }
  | restored {c : Core} {details : Details} {precision : ℕ} (X : OrderId)
      (new : X ∉ c.processedSigns) (absent : c.submitData[X]? = none)
      (verified : Verified precision details) (fetched : Fetched X c.log) :
      OrderMove h w₀ msg c (c.store X (restoredData X details precision))

/-- The view after quiet work. -/
def Idle (c c' : Core) : Prop :=
  ∃ saves events, (∀ e ∈ events, Event.plain e = true) ∧ c' = c.idle saves events

/-- What it can do to the view. -/
inductive Move (h : Host) (w₀ : World) (msg : Message) : Core → Core → Prop where
  | quiet {c c' : Core} (q : Idle c c') : Move h w₀ msg c c'
  | login {c : Core} : Move h w₀ msg c { c with wallet := some Wallet.empty }
  | logout {c : Core} : Move h w₀ msg c { c with wallet := none, utxosReq := ∅ }
  | swap {c c' : Core} (m : SwapMove h w₀ msg c c') : Move h w₀ msg c c'
  | order {c c' : Core} (m : OrderMove h w₀ msg c c') : Move h w₀ msg c c'

end SideSwap.Client
