import Nanobook.Lib.HashMap
import Nanobook.Lib.Program
import Nanobook.Rebalancer.Kill

/-!
# The Binance broker

`binance/mod.rs` with `cache.rs`, `audit.rs` and what `client.rs` checks before it sends:
submissions with a client order id, polling, and the order cache on disk.

What lies outside is an argument of each call: the answers of the exchange, the time, the random
part of a generated id, and whether a file can be read or written.  Files hold records, not JSON
texts; the numbers in the texts of a snapshot are read by a `FloatText`.
-/

namespace Nanobook.Binance

open Rebalancer (BrokerError BrokerSide OrderState Symbol)

/-- An instant, in nanoseconds. -/
abbrev DateTime := Nat

abbrev Path := String

abbrev OrderId := Rebalancer.OrderId

/-! ## Orders -/

/-- The characters that may stand in a query. -/
def isSafe (c : Char) : Bool := c.isAlphanum || c = '_' || c = '.' || c = '-'

/-- `ClientOrderId`: a text of 1 to 36 bytes that may stand in a query. -/
structure ClientOrderId where
  asStr : String
  nonempty : asStr ≠ ""
  short : asStr.utf8ByteSize ≤ 36
  safe : asStr.toList.all isSafe = true
deriving DecidableEq

namespace ClientOrderId

/-- `ClientOrderId::new`. -/
def new (value : String) : Except BrokerError ClientOrderId :=
  if h : value ≠ "" ∧ value.utf8ByteSize ≤ 36 then
    if hs : value.toList.all isSafe = true then .ok ⟨value, h.1, h.2, hs⟩
    else .error (.order "client_order_id contains unsafe query characters")
  else .error (.order "client_order_id must be 1..=36 ASCII-safe characters")

theorem asStr_injective {c c' : ClientOrderId} (h : c.asStr = c'.asStr) : c = c' := by
  cases c; cases c'; cases h; rfl

end ClientOrderId

inductive BrokerOrderType where
  | market
  | limit (price : Int64)
  | stop (price : Int64)
  | stopLimit (stop limit : Int64)
deriving DecidableEq

structure BrokerOrder where
  symbol : Symbol
  side : BrokerSide
  quantity : UInt64
  orderType : BrokerOrderType
  clientOrderId : Option ClientOrderId
deriving DecidableEq

/-- What the client posts. -/
structure OrderRequest where
  symbol : String
  side : String
  orderType : String
  quantity : String
  price : Option String
  timeInForce : Option String
  clientOrderId : Option String
deriving DecidableEq

/-- The part of an `OrderResponse` that is read. -/
structure OrderResponse where
  orderId : UInt64
deriving DecidableEq

/-! ## Snapshots -/

structure BalanceInfo where
  asset : String
  free : String
  locked : String

structure OrderInfo where
  symbol : String
  orderId : UInt64
  status : String
  side : String
  origQty : String

structure AccountInfo where
  balances : List BalanceInfo
  openOrders : List OrderInfo

structure Position where
  symbol : Symbol
  quantity : Int64
  avgCostCents : Int64
  marketValueCents : Int64
  unrealizedPnlCents : Int64
deriving DecidableEq

/-- What floating point arithmetic makes of texts and of prices. -/
structure FloatText where
  /-- `parse_f64_or_warn(..) as i64`. -/
  quantity : String → Int64
  /-- Whether the free and the locked balance make a positive total. -/
  isPositive : String → String → Bool
  /-- The total in units of 1e-8, through `f64_to_fixed_checked`. -/
  units : String → String → Except BrokerError Int64
  /-- Cents as dollars with two decimals. -/
  price : Int64 → String

/-! ## The order cache -/

structure CachedOrder where
  symbol : Symbol
  quantity : Int64
  side : BrokerSide
  status : OrderState
  binanceOrderId : String
  clientOrderId : Option String
  submittedAt : DateTime
deriving DecidableEq

structure CachedOrderRecord where
  orderId : UInt64
  symbol : String
  quantity : Int64
  side : String
  status : String
  binanceOrderId : String
  clientOrderId : Option String
  submittedAt : DateTime
deriving DecidableEq

abbrev OrderCache := HashMap OrderId CachedOrder

/-- A file at the place of a cache, as it can be read back. -/
inductive CacheFile where
  | records (entries : List CachedOrderRecord)
  | unreadable (message : String)
  | malformed (message : String)

def serializeSide : BrokerSide → String
  | .buy => "buy"
  | .sell => "sell"

def deserializeSide : String → Except BrokerError BrokerSide
  | "buy" => .ok .buy
  | "sell" => .ok .sell
  | side => .error (.other ("invalid Binance cached order side: " ++ side))

def serializeStatus : OrderState → String
  | .pending => "pending"
  | .submitted => "submitted"
  | .partiallyFilled => "partially_filled"
  | .filled => "filled"
  | .cancelled => "cancelled"
  | .rejected => "rejected"

def deserializeStatus : String → Except BrokerError OrderState
  | "pending" => .ok .pending
  | "submitted" => .ok .submitted
  | "partially_filled" => .ok .partiallyFilled
  | "filled" => .ok .filled
  | "cancelled" => .ok .cancelled
  | "rejected" => .ok .rejected
  | status => .error (.other ("invalid Binance cached order status: " ++ status))

namespace CachedOrderRecord

def fromCached (orderId : OrderId) (order : CachedOrder) : CachedOrderRecord where
  orderId := orderId
  symbol := order.symbol.asStr
  quantity := order.quantity
  side := serializeSide order.side
  status := serializeStatus order.status
  binanceOrderId := order.binanceOrderId
  clientOrderId := order.clientOrderId
  submittedAt := order.submittedAt

def intoCached (r : CachedOrderRecord) : Except BrokerError (OrderId × CachedOrder) := do
  let symbol ← match Symbol.tryNew r.symbol with
    | some symbol => .ok symbol
    | none => .error (.invalidSymbol r.symbol)
  let side ← deserializeSide r.side
  let status ← deserializeStatus r.status
  .ok (r.orderId, {
    symbol := symbol
    quantity := r.quantity
    side := side
    status := status
    binanceOrderId := r.binanceOrderId
    clientOrderId := r.clientOrderId
    submittedAt := r.submittedAt })

end CachedOrderRecord

namespace OrderCache

/-- The file `save_to_disk` writes.  The order is that in which the map yields its keys. -/
def toFile (cache : OrderCache) (order : HashMap.Order OrderId) : CacheFile :=
  .records ((cache.iter order).map fun e ↦ .fromCached e.1 e.2)

/-- The loop of `load_from_disk`. -/
def insertRecord (cache : OrderCache) (r : CachedOrderRecord) : Except BrokerError OrderCache := do
  let (orderId, order) ← r.intoCached
  .ok (cache.insert orderId order)

/-- `load_from_disk`. -/
def loadFromDisk : Option CacheFile → Except BrokerError OrderCache
  | none => .ok HashMap.empty
  | some (.unreadable e) => .error (.other ("failed to read Binance order cache: " ++ e))
  | some (.malformed e) => .error (.other ("failed to deserialize Binance order cache: " ++ e))
  | some (.records entries) => entries.foldlM insertRecord HashMap.empty

/-- `check_duplicate_client_order_id`. -/
def checkDuplicateClientOrderId (cache : OrderCache) (clientOrderId : String) : Bool :=
  cache.entries.any fun e ↦ e.2.clientOrderId = some clientOrderId

/-- `update_cached_order_status`. -/
def updateStatus (cache : OrderCache) (orderId : OrderId) (status : OrderState) : OrderCache :=
  match cache.get? orderId with
  | some order => cache.insert orderId { order with status := status }
  | none => cache

end OrderCache

/-! ## The audit log -/

inductive AuditEvent where
  | orderSubmitted (timestamp : DateTime) (orderId : OrderId) (symbol : String) (sequence : UInt64)
      (clientOrderId : String)
  | idempotencyRejection (timestamp : DateTime) (symbol : String) (sequence : UInt64)
      (clientOrderId reason : String)
deriving DecidableEq

/-- `check_audit_log_for_sequence` on the lines of the log. -/
def checkAuditLogForSequence (log : List AuditEvent) (sequence : UInt64) : Bool :=
  log.any fun
    | .orderSubmitted _ _ _ s _ => s == sequence
    | .idempotencyRejection .. => false

/-! ## The broker -/

/-- The fields of the broker that the calls below read or write. -/
structure BinanceBroker where
  connected : Bool
  quoteAsset : String
  orderCache : OrderCache
  lastAccountPoll : Option DateTime
  lastOrdersPoll : Option DateTime
  positionCache : List Position
  auditLogPath : Option Path
  reconciliationBlocked : Bool

/-- The broker, the files it knows of and the orders it has posted. -/
structure World where
  broker : BinanceBroker
  cacheFiles : Path → Option CacheFile
  auditLogs : Path → List AuditEvent
  sent : List OrderRequest

/-- A call of the broker. -/
abbrev Call (A : Type) := Program BrokerError World A

namespace World

def setCache (w : World) (cache : OrderCache) : World :=
  { w with broker := { w.broker with orderCache := cache } }

end World

def requireClient : Call Unit := do
  let connected ← Program.read fun w ↦ w.broker.connected
  Program.when (¬ connected) (Program.raise .notConnected)

/-! ### Submitting -/

/-- What the outside contributes to a submission. -/
structure Outside where
  /-- `Uuid::new_v4`. -/
  uuid : String
  now : DateTime
  /-- Whether the audit log can be read, and written. -/
  auditReadable : Bool
  auditWritable : Bool
  /-- Whether the request gets its time and its signature. -/
  signed : Except BrokerError Unit
  /-- What comes back once the request is posted. -/
  response : Except BrokerError OrderResponse

def generateClientOrderId (uuid : String) (sequenceNumber : UInt64) : String :=
  "nanobook-" ++ String.ofList ((uuid.toList.filter (· ≠ '-')).take 16) ++ "-" ++
    toString sequenceNumber.toNat

/-- The client order id a submission carries: the one of the order, or one generated for a sequence
number. -/
def clientOrderIdOf (order : BrokerOrder) (sequenceNumber : Option UInt64) (uuid : String) :
    Except BrokerError (Option ClientOrderId) :=
  match order.clientOrderId, sequenceNumber with
  | some existing, _ => .ok (some existing)
  | none, some seq => (ClientOrderId.new (generateClientOrderId uuid seq)).map some
  | none, none => .ok none

def validateQueryParam (value name : String) : Except BrokerError Unit :=
  if value.toList.all isSafe then .ok ()
  else .error (.order ("invalid characters in " ++ name ++ ": " ++ reprStr value))

/-- The checks `submit_order` of the client makes before it posts. -/
def validateRequest (request : OrderRequest) : Except BrokerError Unit := do
  validateQueryParam request.symbol "symbol"
  validateQueryParam request.side "side"
  validateQueryParam request.orderType "order_type"
  validateQueryParam request.quantity "quantity"
  if let some price := request.price then validateQueryParam price "price"
  if let some timeInForce := request.timeInForce then validateQueryParam timeInForce "timeInForce"
  if let some clientOrderId := request.clientOrderId then
    validateQueryParam clientOrderId "newClientOrderId"

/-- The request an order is posted as; stop orders are refused. -/
def toRequest (text : FloatText) (quoteAsset : String) (order : BrokerOrder) :
    Except BrokerError OrderRequest := do
  let (orderType, price, timeInForce) ← match order.orderType with
    | .market => .ok ("MARKET", none, none)
    | .limit p => .ok ("LIMIT", some (text.price p), some "GTC")
    | .stop _ => .error (.order "Stop orders not yet supported for Binance")
    | .stopLimit _ _ => .error (.order "Stop-limit orders not yet supported for Binance")
  .ok {
    symbol := order.symbol.asStr ++ quoteAsset
    side := match order.side with
      | .buy => "BUY"
      | .sell => "SELL"
    orderType := orderType
    quantity := toString order.quantity.toNat
    price := price
    timeInForce := timeInForce
    clientOrderId := order.clientOrderId.map ClientOrderId.asStr }

/-- `submit_order` of the client. -/
def postOrder (out : Outside) (request : OrderRequest) : Call OrderResponse := do
  Program.lift (validateRequest request)
  Program.lift out.signed
  Program.modify fun w ↦ { w with sent := w.sent ++ [request] }
  Program.lift out.response

/-- `i64::try_from` on the quantity of an order. -/
def quantityI64 (quantity : UInt64) : Except BrokerError Int64 :=
  if quantity.toNat < 2 ^ 63 then .ok quantity.toInt64
  else .error (.order "order quantity exceeds i64")

/-- `submit_order` of the broker. -/
def submitOrder (text : FloatText) (out : Outside) (order : BrokerOrder) : Call OrderId := do
  let blocked ← Program.read fun w ↦ w.broker.reconciliationBlocked
  Program.when (blocked = true) <|
    Program.raise (.order "Reconciliation blocked - manual review required")
  requireClient
  let quoteAsset ← Program.read fun w ↦ w.broker.quoteAsset
  let request ← Program.lift (toRequest text quoteAsset order)
  let resp ← postOrder out request
  let quantity ← Program.lift (quantityI64 order.quantity)
  Program.modify fun w ↦ w.setCache (w.broker.orderCache.insert resp.orderId {
    symbol := order.symbol
    quantity := quantity
    side := order.side
    status := .submitted
    binanceOrderId := toString resp.orderId.toNat
    clientOrderId := order.clientOrderId.map ClientOrderId.asStr
    submittedAt := out.now })
  pure resp.orderId

/-- A log that cannot be written is let be. -/
def writeAuditEvent (out : Outside) (path : Path) (event : AuditEvent) : Call Unit :=
  Program.when (out.auditWritable = true) <| Program.modify fun w ↦
    { w with auditLogs := fun p ↦ if p = path then w.auditLogs p ++ [event] else w.auditLogs p }

/-- `log_idempotency_rejection`, where there is a log and a sequence number. -/
def logIdempotencyRejection (out : Outside) (order : BrokerOrder) (sequenceNumber : Option UInt64)
    (clientOrderId reason : String) : Call Unit := do
  let auditLogPath ← Program.read fun w ↦ w.broker.auditLogPath
  match auditLogPath, sequenceNumber with
  | some path, some seq =>
      writeAuditEvent out path
        (.idempotencyRejection out.now order.symbol.asStr seq clientOrderId reason)
  | _, _ => pure ()

/-- Whether the audit log has the sequence number; a log that cannot be read does not. -/
def isLogged (out : Outside) (sequenceNumber : Option UInt64) (w : World) : Bool :=
  match w.broker.auditLogPath, sequenceNumber with
  | some path, some seq => out.auditReadable && checkAuditLogForSequence (w.auditLogs path) seq
  | _, _ => false

/-- Whether an order with the client order id is cached. -/
def isCached (clientOrderId : Option ClientOrderId) (w : World) : Bool :=
  match clientOrderId with
  | some cid => w.broker.orderCache.checkDuplicateClientOrderId cid.asStr
  | none => false

/-- Log a rejection and refuse the order. -/
def refuse (out : Outside) (order : BrokerOrder) (sequenceNumber : Option UInt64)
    (clientOrderId : Option ClientOrderId) (reason : String) : Call Unit := do
  let cid := (clientOrderId.map ClientOrderId.asStr).getD ""
  logIdempotencyRejection out order sequenceNumber cid reason
  Program.raise (.duplicateOrder cid)

/-- `log_order_submitted`, where there is a log, a sequence number and a client order id. -/
def logOrderSubmitted (out : Outside) (order : BrokerOrder) (sequenceNumber : Option UInt64)
    (clientOrderId : Option ClientOrderId) (orderId : OrderId) : Call Unit := do
  let auditLogPath ← Program.read fun w ↦ w.broker.auditLogPath
  match auditLogPath, sequenceNumber, clientOrderId with
  | some path, some seq, some cid =>
      writeAuditEvent out path
        (.orderSubmitted out.now orderId order.symbol.asStr seq cid.asStr)
  | _, _, _ => pure ()

def submitOrderWithSequence (text : FloatText) (out : Outside) (order : BrokerOrder)
    (sequenceNumber : Option UInt64) : Call OrderId := do
  let clientOrderId ← Program.lift (clientOrderIdOf order sequenceNumber out.uuid)
  let logged ← Program.read (isLogged out sequenceNumber)
  Program.when (logged = true) <|
    refuse out order sequenceNumber clientOrderId "duplicate sequence number in audit log"
  let cached ← Program.read (isCached clientOrderId)
  Program.when (cached = true) <|
    refuse out order sequenceNumber clientOrderId "duplicate client order ID in cache"
  let orderId ← submitOrder text out { order with clientOrderId := clientOrderId }
  logOrderSubmitted out order sequenceNumber clientOrderId orderId
  pure orderId

/-! ### Polling -/

/-- What the outside contributes to a poll. -/
structure Poll where
  begun : DateTime
  ended : DateTime
  info : Except BrokerError AccountInfo

def pollingIntervalMs : Nat := 5000

/-- A poll is due after the interval, and whenever the clock went backwards. -/
def shouldPoll (now : DateTime) (lastPoll : Option DateTime) : Bool :=
  match lastPoll with
  | none => true
  | some last => now < last || last + pollingIntervalMs * 10 ^ 6 ≤ now

/-- `strip_suffix`. -/
def stripSuffix (s suffix : String) : Option String :=
  if suffix.toList <:+ s.toList then
    some (String.ofList (s.toList.take (s.toList.length - suffix.toList.length)))
  else none

def orderStatus : String → OrderState
  | "NEW" => .submitted
  | "PARTIALLY_FILLED" => .partiallyFilled
  | "FILLED" => .filled
  | "CANCELED" => .cancelled
  | "REJECTED" => .rejected
  | "EXPIRED" => .cancelled
  | _ => .submitted

/-- An order of a snapshot is cached without a client order id. -/
def insertOpenOrder (text : FloatText) (quoteAsset : String) (now : DateTime) (cache : OrderCache)
    (order : OrderInfo) : OrderCache :=
  match Symbol.tryNew ((stripSuffix order.symbol quoteAsset).getD order.symbol) with
  | none => cache
  | some symbol => cache.insert order.orderId {
      symbol := symbol
      quantity := text.quantity order.origQty
      side := match order.side with
        | "SELL" => .sell
        | _ => .buy
      status := orderStatus order.status
      binanceOrderId := toString order.orderId.toNat
      clientOrderId := none
      submittedAt := now }

/-- The cache `update_order_cache_from_account_info` builds. -/
def cacheOf (text : FloatText) (quoteAsset : String) (now : DateTime) (info : AccountInfo) :
    OrderCache :=
  info.openOrders.foldl (insertOpenOrder text quoteAsset now) HashMap.empty

def updateOrderCacheFromAccountInfo (text : FloatText) (poll : Poll) (info : AccountInfo) :
    Call Unit :=
  Program.modify fun w ↦ w.setCache (cacheOf text w.broker.quoteAsset poll.ended info)

/-- The positions of a snapshot, as `update_state_from_account_info` collects them. -/
def positionsOf (text : FloatText) : List BalanceInfo → Except BrokerError (List Position)
  | [] => .ok []
  | balance :: balances =>
      if ¬ text.isPositive balance.free balance.locked then positionsOf text balances
      else
        match Symbol.tryNew balance.asset with
        | none => positionsOf text balances
        | some symbol => do
            let quantity ← text.units balance.free balance.locked
            let positions ← positionsOf text balances
            .ok (⟨symbol, quantity, 0, 0, 0⟩ :: positions)

def updateStateFromAccountInfo (text : FloatText) (poll : Poll) (info : AccountInfo) :
    Call Unit := do
  let positions ← Program.lift (positionsOf text info.balances)
  Program.modify fun w ↦ { w with broker := { w.broker with positionCache := positions } }
  updateOrderCacheFromAccountInfo text poll info

def pollAccountInfo (text : FloatText) (poll : Poll) : Call Unit := do
  let lastPoll ← Program.read fun w ↦ w.broker.lastAccountPoll
  Program.when (shouldPoll poll.begun lastPoll = true) do
    requireClient
    let info ← Program.lift poll.info
    updateStateFromAccountInfo text poll info
    Program.modify fun w ↦
      { w with broker := { w.broker with lastAccountPoll := some poll.ended } }

def pollOpenOrders (text : FloatText) (poll : Poll) : Call Unit := do
  let lastPoll ← Program.read fun w ↦ w.broker.lastOrdersPoll
  Program.when (shouldPoll poll.begun lastPoll = true) do
    requireClient
    let info ← Program.lift poll.info
    updateOrderCacheFromAccountInfo text poll info
    Program.modify fun w ↦
      { w with broker := { w.broker with lastOrdersPoll := some poll.ended } }

/-! ### The cache -/

def updateCachedOrderStatus (orderId : OrderId) (status : OrderState) : Call Unit :=
  Program.modify fun w ↦ w.setCache (w.broker.orderCache.updateStatus orderId status)

/-- The file at a place is replaced. -/
def World.setCacheFile (w : World) (path : Path) (file : Option CacheFile) : World :=
  { w with cacheFiles := fun p ↦ if p = path then file else w.cacheFiles p }

/-- A write that fails leaves some file or none. -/
def saveCacheToDisk (path : Path) (order : HashMap.Order OrderId)
    (failure : Option (BrokerError × Option CacheFile)) : Call Unit :=
  match failure with
  | none => Program.modify fun w ↦ w.setCacheFile path (some (w.broker.orderCache.toFile order))
  | some (e, file) => do
      Program.modify fun w ↦ w.setCacheFile path file
      Program.raise e

def loadCacheFromDisk (path : Path) : Call Unit := do
  let file ← Program.read fun w ↦ w.cacheFiles path
  let loaded ← Program.lift (OrderCache.loadFromDisk file)
  Program.modify fun w ↦ w.setCache loaded

end Nanobook.Binance
