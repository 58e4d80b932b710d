import SideSwap.Api.Messages

/-!
# The protocol between the worker and the user interface

`ToMsg` are the messages of the user interface, `FromMsg` those of the worker
(`sideswap.proto`).
-/

namespace SideSwap.Client

/-! ### Messages of the user interface -/

/-- The user asks for an instant swap. -/
structure SwapRequest where
  sendAsset : AssetId
  recvAsset : AssetId
  sendAmount : ℤ
  /-- for a peg-out: how long it may take -/
  blocks : Option ℤ
deriving DecidableEq

/-- The user accepts the quote that is shown.  An address says where to receive bitcoin on its own
chain. -/
structure SwapAccept where
  recvAddr : Option String
  recvAmount : Option ℤ
deriving DecidableEq

/-- An amount of an asset. -/
structure Balance where
  assetId : AssetId
  amount : ℤ
deriving DecidableEq

/-- The user prepares a payment. -/
structure CreateTx where
  addr : String
  balance : Balance
  isContact : Bool
deriving DecidableEq

/-- The user submits an order, either from this application or within the session of another one. -/
structure SubmitOrder where
  /-- the session of another application -/
  sessionId : Option String
  assetId : AssetId
  /-- at most one of the two amounts is given -/
  bitcoinAmount : Option F64
  assetAmount : Option F64
  price : F64
  /-- the distance from the index price -/
  indexPrice : Option F64
deriving DecidableEq

/-- The user accepts or declines the order on display. -/
structure SubmitDecision where
  orderId : OrderId
  accept : Bool
  /-- whether later sign requests of the order are accepted without a prompt -/
  autoSign : Option Bool
  private_ : Option Bool
  ttlSeconds : Option ℕ
deriving DecidableEq

/-- The new price of an order, or its new distance from the index price. -/
inductive EditData where
  | price (v : F64)
  | indexPrice (v : F64)
deriving DecidableEq

/-- The user changes the price of an order. -/
structure EditOrder where
  orderId : OrderId
  data : Option EditData
deriving DecidableEq

/-- The market on display. -/
inductive Market where
  | none
  | tokens
  | asset
deriving DecidableEq

/-- The messages of the user interface. -/
inductive ToMsg where
  | login (mnemonic : String) (phoneKey : Option PhoneKey)
  | logout
  | encryptPin (pin mnemonic : String)
  -- the device and the wallet
  | decryptPin (pin salt encryptedData pinIdentifier : String)
  | pushMessage (text : String)
  -- pegs and instant swaps
  | pegRequest
  | swapRequest (req : SwapRequest)
  | swapCancel
  | swapAccept (req : SwapAccept)
  -- payments
  | getRecvAddress
  | createTx (req : CreateTx)
  | sendTx (memo : String)
  | blindedValues (txid : String)
  | setMemo (txid memo : String)
  -- push messages, phones and contacts
  | updatePushToken (token : String)
  | registerPhone (number : String)
  | verifyPhone (phoneKey : PhoneKey) (code : String)
  | unregisterPhone (phoneKey : PhoneKey)
  | uploadAvatar (phoneKey : PhoneKey) (image : String)
  | uploadContacts (phoneKey : PhoneKey) (contacts : List UploadContact)
  -- orders
  | submitOrder (req : SubmitOrder)
  | linkOrder (orderId : OrderId)
  | submitDecision (req : SubmitDecision)
  | editOrder (req : EditOrder)
  | cancelOrder (orderId : OrderId)
  -- markets and prices
  | subscribe (market : Market) (assetId : Option AssetId)
  | subscribePrice (assetId : AssetId)
  | unsubscribePrice (assetId : AssetId)
  | assetDetails (assetId : AssetId)
deriving DecidableEq

/-! ### Messages of the worker -/

/-- A transaction of the wallet. -/
structure Tx where
  balances : List Balance
  memo : String
  networkFee : ℤ
  txid : String
deriving DecidableEq

/-- A peg, with the transactions on both chains. -/
structure Peg where
  isPegIn : Bool
  amountSend : ℤ
  amountRecv : ℤ
  addrSend : String
  addrRecv : String
  txidSend : String
  voutSend : ℤ
  txidRecv : Option String
deriving DecidableEq

/-- The confirmations so far, out of those that are needed. -/
structure Confs where
  -- the transactions and balances of the wallet
  count : ℤ
  total : ℤ
deriving DecidableEq

/-- An entry of the transaction list is a transaction or a peg. -/
inductive Item where
  | tx (tx : Tx)
  | peg (peg : Peg)
deriving DecidableEq

/-- An entry of the transaction list.  One without `confs` is settled. -/
structure TransItem where
  id : String
  createdAt : ℤ
  confs : Option Confs
  item : Item
deriving DecidableEq

/-- The quote of an instant swap, or the reason why there is none. -/
structure SwapReview where
  sendAsset : AssetId
  recvAsset : AssetId
  sendAmount : ℤ
  /-- the quote, if there is one -/
  recvAmount : Option ℤ
  networkFee : Option ℤ
  error : Option String
deriving DecidableEq

/-- What the user decides about an order: to submit it, to take it, or to sign it. -/
inductive Step where
  | submit
  | quote
  | sign
deriving DecidableEq

/-- An order on display, with the decision that is asked for. -/
structure SubmitReview where
  orderId : OrderId
  asset : AssetId
  bitcoinAmount : ℤ
  assetAmount : ℤ
  price : F64
  sellBitcoin : Bool
  serverFee : ℤ
  /-- which decision is asked for -/
  step : Step
  indexPrice : Bool
  /-- whether the order was submitted from this application -/
  internal : Bool
  autoSign : Bool
deriving DecidableEq

/-- How a decision ended. -/
inductive SubmitResult where
  | submitSucceed
  | swapSucceed (item : TransItem)
  | error (text : String)
deriving DecidableEq

/-- An order as it is shown. -/
structure Order where
  orderId : OrderId
  assetId : AssetId
  bitcoinAmount : ℤ
  sendBitcoins : Bool
  serverFee : ℤ
  assetAmount : ℤ
  price : F64
  createdAt : ℤ
  expiresAt : ℤ
  private_ : Bool
  autoSign : Bool
  /-- whether the order belongs to the user -/
  own : Bool
  /-- whether its asset is one of the tokens -/
  tokenMarket : Bool
  /-- whether it is marked as new -/
  new : Bool
  indexPrice : Option F64

/-- Floating point fields are compared as numbers. -/
def Order.same (a b : Order) : Bool :=
  a.orderId = b.orderId && a.assetId = b.assetId && a.bitcoinAmount = b.bitcoinAmount
    && a.sendBitcoins = b.sendBitcoins && a.serverFee = b.serverFee
    && a.assetAmount = b.assetAmount && a.price.eq b.price && a.createdAt = b.createdAt
    && a.expiresAt = b.expiresAt && a.private_ = b.private_ && a.autoSign = b.autoSign
    && a.own = b.own && a.tokenMarket = b.tokenMarket && a.new = b.new
    -- two missing index prices are the same; a missing one differs from any other
    && match a.indexPrice, b.indexPrice with
      | some x, some y => x.eq y
      | none, none => true
      | _, _ => false

/-- An asset as it is shown. -/
structure AssetCopy where
  assetId : AssetId
  name : String
  ticker : Ticker
  icon : String
  precision : ℕ
  /-- whether it is on the swap market, and not a token -/
  swapMarket : Bool
  domain : Option String
deriving DecidableEq

/-- The messages of the worker. -/
inductive FromMsg where
  -- the transactions and balances of the wallet
  | updatedTx (item : TransItem)
  | removedTx (id : String)
  | newAsset (asset : AssetCopy)
  | balanceUpdate (balance : Balance)
  | serverStatus (status : ServerStatus)
  | priceUpdate (asset : AssetId) (bid ask : F64)
  -- the device and the wallet
  | walletLoaded
  | encryptPin (result : Except String (String × String × String))
  | decryptPin (result : Except String String)
  -- instant swaps and pegs
  | swapReview (review : SwapReview)
  | swapWaitTx (sendAsset recvAsset : AssetId) (pegAddr recvAddr : String)
  | swapSucceed (item : TransItem)
  | swapFailed (text : String)
  -- payments
  | recvAddress (addr : String)
  | createTxResult (result : Except String ℤ)
  | sendResult (result : Except String TransItem)
  | blindedValues (txid : String) (values : Option String)
  -- phones and contacts
  | registerPhone (result : Except String PhoneKey)
  | verifyPhone (result : Except String Unit)
  | uploadAvatar (result : Except String Unit)
  | uploadContacts (result : Except String Unit)
  | contactCreated (contact : Contact)
  | contactRemoved (contactKey : ContactKey)
  | contactTransaction (tx : ContactTransaction)
  | accountStatus (registered : Bool)
  -- orders
  | showMessage (text : String)
  | submitReview (review : SubmitReview)
  | submitResult (result : SubmitResult)
  | editOrder (result : Except String Unit)
  | cancelOrder (result : Except String Unit)
  | serverConnected
  | serverDisconnected
  -- markets and prices
  | orderCreated (order : Order)
  | orderRemoved (orderId : OrderId)
  | indexPrice (asset : AssetId) (ind : Option F64)
  | assetDetails (assetId : AssetId) (stats : Option AssetStats)

end SideSwap.Client
