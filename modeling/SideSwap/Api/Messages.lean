import SideSwap.Api.Ids
import SideSwap.Common.Types

/-!
# The server API

The requests, responses and notifications that the client uses (`sideswap_api`).  `Request.Answer`
gives the type of the response to each request, so that a response of another type is an error of
the request, as it is for `send_request!`.

Messages only for dealers are left out here, and so are fields that the client does not read.
-/

namespace SideSwap

/-! ### Assets and pegs -/

/-- An asset of the server's list. -/
structure Asset where
  assetId : AssetId
  name : String
  ticker : Ticker
  icon : Option String
  precision : ℕ
  iconUrl : Option String
deriving DecidableEq

/-- A peg between the two chains: where the other side is to be paid, and for a peg-out the amount
and the number of blocks that it may take. -/
structure PegRequest where
  recvAddr : String
  /-- the amount and the blocks of a peg-out -/
  sendAmount : Option ℤ
  pegIn : Bool
  deviceKey : Option String
  blocks : Option ℤ
deriving DecidableEq

/-- The order of a peg and the address that the user pays. -/
structure PegResponse where
  orderId : OrderId
  pegAddr : String

/-- One payment to the address of a peg, with the payout once it is made. -/
structure TxStatus where
  txHash : String
  /-- where the payment is in its transaction -/
  vout : ℤ
  amount : ℤ
  payout : Option ℤ
  /-- the confirmations so far, and those that are needed -/
  detectedConfs : Option ℤ
  totalConfs : Option ℤ
  createdAt : ℤ
  payoutTxid : Option String

/-- The state of a peg, with all payments to its address. -/
structure PegStatus where
  orderId : OrderId
  pegIn : Bool
  addr : String
  addrRecv : String
  list : List TxStatus

/-- The fee rate for a confirmation within a number of blocks. -/
structure FeeRate where
  blocks : ℤ
  value : F64

/-- The server's limits and fees. -/
structure ServerStatus where
  minPegInAmount : ℤ
  minPegOutAmount : ℤ
  serverFeePercentPegIn : F64
  serverFeePercentPegOut : F64
  bitcoinFeeRates : List FeeRate

/-! ### Instant swaps -/

/-- The terms of an instant swap, as the server settled them. -/
structure Swap where
  /-- what the party that is told sends and receives -/
  sendAsset : AssetId
  sendAmount : ℤ
  recvAsset : AssetId
  recvAmount : ℤ
  networkFee : ℤ
deriving DecidableEq

/-- What the client sends for its swap: its inputs and outputs, then the signed transaction. -/
inductive SwapAction where
  | psbt (psbt : String)
  | sign (psbt : String)
deriving DecidableEq

/-- Why the server gave up a swap. -/
inductive SwapError where
  | cancelled
  | timeout
  | serverError
  | dealerError
  | clientError
deriving DecidableEq

/-- How far a swap has got: the server waits for the inputs, waits for the signature, or is done. -/
inductive SwapState where
  | waitPsbt (swap : Swap)
  | waitSign (psbt : String)
  | failed (error : SwapError)
  | done (txid : String)
deriving DecidableEq

/-- The swap of an order moves on. -/
structure SwapNotification where
  orderId : OrderId
  state : SwapState
deriving DecidableEq

/-- A request for a quote: what is sent, and how many coins it takes. -/
structure MatchRfq where
  sendAsset : AssetId
  sendAmount : ℤ
  recvAsset : AssetId
  /-- how many inputs the client brings, and whether it needs a change output -/
  utxoCount : ℤ
  withChange : Bool
deriving DecidableEq

/-- Why there is no quote. -/
inductive RfqRejectReason where
  | serverError
  | noDealer
  | amountLow
  | amountHigh
deriving DecidableEq

/-- A dealer's quote. -/
structure MatchRfqQuote where
  recvAmount : ℤ
  networkFee : ℤ
deriving DecidableEq

/-- A new quote for a request, or the reason why there is none now. -/
structure MatchRfqUpdate where
  orderId : OrderId
  quote : Except RfqRejectReason MatchRfqQuote

/-- The prices at which the market buys and sells an asset. -/
structure PricePair where
  bid : F64
  ask : F64

/-! ### Orders -/

/-- The maker of an order (`requestor`) and its taker (`responder`). -/
inductive OrderSide where
  | requestor
  | responder
deriving DecidableEq

/-- Which of the two amounts of an order is fixed; the other one follows the price. -/
inductive OrderType where
  | bitcoin
  | asset
deriving DecidableEq

/-- The terms of an order. -/
structure Details where
  asset : AssetId
  bitcoinAmount : ℤ
  assetAmount : ℤ
  price : F64
  serverFee : ℤ
  side : OrderSide
  /-- whether the client sends bitcoin or receives it -/
  sendBitcoins : Bool
  /-- which amount is fixed -/
  orderType : OrderType
deriving DecidableEq

/-- An order as it is submitted, in bitcoins and in whole assets. -/
structure PriceOrder where
  asset : AssetId
  bitcoinAmount : Option F64
  assetAmount : Option F64
  price : Option F64
  indexPrice : Option F64
deriving DecidableEq

/-- The order that the server made of a submission. -/
structure SubmitResponse where
  orderId : OrderId
  details : Details

/-- An existing order, and whether its price follows the index. -/
structure LinkResponse where
  orderId : OrderId
  details : Details
  indexPrice : Bool
deriving DecidableEq

/-- The user accepts an order: the coins, the addresses to pay and the price that was shown. -/
structure AddrRequest where
  orderId : OrderId
  pset : String
  recvAddr : String
  changeAddr : String
  price : F64
  private_ : Option Bool
  ttlSeconds : Option ℕ
deriving DecidableEq

/-- The server asks for a signature, under the terms that it states. -/
structure SignNotification where
  orderId : OrderId
  pset : String
  details : Details
deriving DecidableEq

/-- The signed transaction of an order. -/
structure SignRequest where
  orderId : OrderId
  signedPset : String
  side : OrderSide
deriving DecidableEq

/-- An order is closed, with the id of its transaction unless it failed. -/
structure CompleteNotification where
  orderId : OrderId
  txid : Option String
deriving DecidableEq

/-- What only the owner of an order is told about it. -/
structure Own where
  indexPrice : Option F64
  private_ : Bool

/-- An order is on the market, or has changed. -/
structure OrderCreatedNotification where
  orderId : OrderId
  details : Details
  createdAt : ℤ
  expiresAt : ℤ
  own : Option Own

/-- The answer to a subscription and to a login: the orders to show. -/
structure SubscribeResponse where
  asset : Option AssetId
  orders : List OrderCreatedNotification

/-- The session and the orders that the user has in it. -/
structure LoginResponse where
  sessionId : String
  orders : List OrderCreatedNotification

/-- The index price of an asset. -/
structure LoadPricesResponse where
  asset : AssetId
  ind : Option F64

/-- How much of an asset there is on the chain. -/
structure AssetStats where
  issuedAmount : ℤ
  burnedAmount : ℤ
  hasBlindedIssuances : Bool

/-- The statistics of an asset. -/
structure AssetDetailsResponse where
  assetId : AssetId
  chainStats : Option AssetStats

/-! ### Contacts -/

/-- An entry of the phone's address book. -/
structure UploadContact where
  identifier : String
  name : String
  phones : List String
deriving DecidableEq

/-- A contact who uses the server too. -/
structure Contact where
  contactKey : ContactKey
  name : String
  phone : String

/-- A transaction with a contact. -/
structure ContactTransaction where
  contactKey : ContactKey
  txid : String

/-- The contacts and the transactions with them. -/
structure DownloadContactsResponse where
  registered : Bool
  contacts : List Contact
  transactions : List ContactTransaction

/-- Whether the server knows a device key. -/
inductive DeviceState where
  | unregistered
  | registered
deriving DecidableEq

/-! ### Requests and notifications -/

/-- The requests of the client. -/
inductive Request where
  -- the server itself
  | ping
  | serverStatus
  | assets
  -- pegs
  | peg (req : PegRequest)
  | pegStatus (orderId : OrderId)
  -- instant swaps
  | matchRfq (rfq : MatchRfq)
  | matchRfqCancel (orderId : OrderId)
  | matchRfqAccept (orderId : OrderId) (recvAmount : ℤ)
  | priceUpdateSubscribe (asset : AssetId)
  | swap (orderId : OrderId) (action : SwapAction)
  -- the device and its push messages
  | loginClient (cookie : Option String) (version : String)
  | verifyDevice (deviceKey : String)
  | registerDevice (osType : ℤ)
  | registerAddresses (deviceKey : String) (addresses : List String)
  | updatePushToken (deviceKey pushToken : String)
  -- phones and contacts
  | registerPhone (number walletHashId : String) (addresses : List String)
  | verifyPhone (phoneKey : PhoneKey) (code : String)
  | unregisterPhone (phoneKey : PhoneKey)
  | uploadAvatar (phoneKey : PhoneKey) (image : String)
  | uploadContacts (phoneKey : PhoneKey) (contacts : List UploadContact)
  | downloadContacts (phoneKey : PhoneKey)
  | contactAddr (phoneKey : PhoneKey) (contactKey : ContactKey)
  | contactBroadcast (rawTx : String) (phoneKey : PhoneKey) (contactKey : ContactKey)
  -- orders and their prices
  | loadPrices (asset : AssetId)
  | cancelPrices (asset : AssetId)
  | submit (order : PriceOrder) (sessionId : Option String)
  | edit (orderId : OrderId) (price indexPrice : Option F64)
  | cancel (orderId : OrderId)
  | login (sessionId : Option String)
  | subscribe (asset : Option AssetId)
  | unsubscribe (asset : Option AssetId)
  | link (orderId : OrderId)
  | addr (req : AddrRequest)
  | sign (req : SignRequest)
  | getSign (orderId : OrderId)
  | assetDetails (assetId : AssetId)
deriving DecidableEq

/-- The response to a request. -/
def Request.Answer : Request → Type
  | .serverStatus => ServerStatus
  | .assets => List Asset
  | .peg _ => PegResponse
  | .matchRfq _ => OrderId
  | .loginClient .. => String
  | .verifyDevice _ => DeviceState
  | .registerDevice _ => String
  | .registerPhone .. => PhoneKey
  | .downloadContacts _ => DownloadContactsResponse
  | .contactAddr .. => String
  | .submit .. => SubmitResponse
  | .login _ => LoginResponse
  | .link _ => LinkResponse
  | .getSign _ => SignNotification
  | _ => Unit

/-- What the server sends unasked. -/
inductive Notification where
  | serverStatus (status : ServerStatus)
  | pegStatus (status : PegStatus)
  | swap (msg : SwapNotification)
  | matchRfq (msg : MatchRfqUpdate)
  | priceUpdate (asset : AssetId) (price : PricePair)
  | updatePrices (msg : LoadPricesResponse)
  | orderCreated (msg : OrderCreatedNotification)
  | orderRemoved (orderId : OrderId)
  | sign (msg : SignNotification)
  | complete (msg : CompleteNotification)
  | contactCreated (contact : Contact)
  | contactRemoved (contactKey : ContactKey)
  | contactTransaction (tx : ContactTransaction)
  | accountStatus (registered : Bool)
  /-- a notification for dealers, which the client ignores -/
  | other

/-- A push message that the client understands. -/
inductive FcmMessage where
  | tx
  | pegDetected
  | pegPayout
  | sign (orderId : OrderId)

/-- The wallet library's registry of assets. -/
structure GdkAsset where
  name : Option String
  precision : Option ℕ
  ticker : Option Ticker
  domain : Option String

/-- The assets of the registry and their icons. -/
structure GdkAssets where
  assets : Map AssetId GdkAsset
  icons : Map AssetId String

end SideSwap
