import SideSwap.Lib.Proc
import SideSwap.Lib.F64
import SideSwap.Common.Types
import SideSwap.Common.Ws
import SideSwap.Balancing.Machine
import SideSwap.Balancing.OneStep
import SideSwap.Balancing.Record
import SideSwap.Balancing.AtMostOnce
import SideSwap.Api.Ids
import SideSwap.Api.Messages
import SideSwap.Client.Proto
import SideSwap.Client.State
import SideSwap.Client.Wallet
import SideSwap.Client.Swap
import SideSwap.Client.Orders
import SideSwap.Client.Worker
import SideSwap.Client.Effects
import SideSwap.Client.Handlers
import SideSwap.Lib.Replica
import SideSwap.Client.OrderList
import SideSwap.Client.Mirror
import SideSwap.Client.Connection
import SideSwap.Client.Moves
import SideSwap.Client.Quiet
import SideSwap.Client.SwapMoves
import SideSwap.Client.OrderMoves
import SideSwap.Client.Refinement
import SideSwap.Lib.History
import SideSwap.Client.SwapSafety
import SideSwap.Client.SignOnce
import SideSwap.Client.Reviews
import SideSwap.Client.AutoSign
import SideSwap.Client.UsedCoins
import SideSwap.Bitfinex.Quote
import SideSwap.Bitfinex.QuoteBound
import SideSwap.Client.AcceptedSwap
import SideSwap.Client.Quotes
import SideSwap.Client.Payments
import SideSwap.Client.TokenMarket
import SideSwap.Client.AssetList
import SideSwap.Client.AssetTable
import SideSwap.Client.Repricing
import SideSwap.Client.SignPrompts
import SideSwap.Common.Selection
import SideSwap.Dealer.Orders
import SideSwap.Dealer.OwnOrders
import SideSwap.Dealer.SignsOffers
import SideSwap.Dealer.PriceAge
import SideSwap.Libwally.SignPsbt
import SideSwap.Libwally.ValueExact
import SideSwap.Lib.Loop
import SideSwap.Libwally.Rounds
import SideSwap.Libwally.Overflow
import SideSwap.Bitfinex.Hedges
import SideSwap.Bitfinex.SwapInputs
import SideSwap.Client.MarketOrders
import SideSwap.Bitfinex.Arithmetic
import SideSwap.Bitfinex.Balanced
import SideSwap.Bitfinex.QuoteWindow
import SideSwap.Dealer.Funded
import SideSwap.Dealer.MaxAmount
import SideSwap.Client.AddressBatches
import SideSwap.Client.OrderCoins
import SideSwap.Client.CancelledOrders
import SideSwap.Client.Successes
import SideSwap.Libwally.GeneratePsbt
import SideSwap.Libwally.Completed
import SideSwap.Libwally.Signable
import SideSwap.Lib.Numeral
import SideSwap.Ui.Amounts
import SideSwap.Ui.Text
import SideSwap.Ui.Grouping
import SideSwap.Lib.F64Exact
import SideSwap.Ui.OrderEntry
import SideSwap.Lib.Forall2
import SideSwap.Lib.Uri
import SideSwap.Lib.Base64
import SideSwap.Ui.QrCode
import SideSwap.Ui.Links
import SideSwap.Ui.PinSetup
import SideSwap.Ui.Export
import SideSwap.Gdk.CreateTx
import SideSwap.Gdk.Created
import SideSwap.Gdk.CrossRounds
import SideSwap.Gdk.HeaderRuns
import SideSwap.Gdk.LiquidHeader
import SideSwap.Gdk.Payment
import SideSwap.Gdk.Scanned
import SideSwap.Gdk.SpvStatus
import SideSwap.Gdk.Synced
