import Hftrs.Library.BigEndian

/-! The 23 message structs of ITCH 5.0: tags, packed layouts and field access. -/
namespace Hftrs.Itch5

open Hftrs.Library

/-- A message struct of the protocol. -/
inductive MsgKind where
  | systemEvent
  | stockDirectory
  | stockTradingAction
  | regSHORestriction
  | marketParticipantPosition
  | mwcbDeclineLevel
  | mwcbStatus
  | quotingPeriodUpdate
  | luldAuctionCollar
  | operationalHalt
  | addOrderNoMPIDAttribution
  | addOrderWithMPIDAttribution
  | orderExecuted
  | orderExecutedWithPrice
  | orderCancel
  | orderDelete
  | orderReplace
  | trade
  | crossTrade
  | brokenTrade
  | netOrderImbalanceIndicator
  | retailPriceImprovementIndicator
  | directListingwithCapitalRaisePriceDiscovery
  deriving DecidableEq, Repr

/-- The wire types of struct fields. All are unaligned. -/
inductive FieldType where
  | u8
  | u16
  | u32
  | u64
  | timestamp
  | symbol
  | price4
  | price8
  | bytes (n : Nat)
  deriving DecidableEq, Repr

def FieldType.size : FieldType → Nat
  | .u8 => 1
  | .u16 => 2
  | .u32 => 4
  | .u64 => 8
  | .timestamp => 6
  | .symbol => 8
  | .price4 => 4
  | .price8 => 8
  | .bytes n => n

inductive Field where
  | tag
  | stockLocate
  | trackingNumber
  | timestamp
  | eventCode
  | stock
  | marketCategory
  | financialStatusIndicator
  | roundLotSize
  | roundLotsOnly
  | issueClassification
  | issueSubType
  | authenticity
  | shortSaleThresholdIndicator
  | ipoFlag
  | luldReferencePriceTier
  | etpFlag
  | etpLeverageFactor
  | inverseIndicator
  | tradingState
  | reserved
  | reason
  | locateCode
  | regShoAction
  | mpid
  | primaryMarketMaker
  | marketMakerMode
  | marketParticipantState
  | level1
  | level2
  | level3
  | breachedLevel
  | ipoQuotationReleaseTime
  | ipoQuotationReleaseQualifier
  | ipoPrice
  | auctionCollarReferencePrice
  | upperAuctionCollarPrice
  | lowerAuctionCollarPrice
  | auctionCollarExtension
  | marketCode
  | operationalHaltAction
  | orderReferenceNumber
  | buySellIndicator
  | shares
  | price
  | attribution
  | executedShares
  | matchNumber
  | printable
  | executionPrice
  | cancelledShares
  | originalOrderReferenceNumber
  | newOrderReferenceNumber
  | crossPrice
  | crossType
  | pairedShares
  | imbalanceShares
  | imbalanceDirection
  | farPrice
  | nearPrice
  | currentReferencePrice
  | priceVariationIndicator
  | interestFlag
  | openEligibilityStatus
  | minimumAllowablePrice
  | maximumAllowablePrice
  | nearExecutionPrice
  | nearExecutionTime
  | lowerPriceRangeCollar
  | upperPriceRangeCollar
  deriving DecidableEq, Repr

namespace MsgKind

/-- `TAG` of each struct. -/
def tag : MsgKind → UInt8
  | .systemEvent => 'S'.toUInt8
  | .stockDirectory => 'R'.toUInt8
  | .stockTradingAction => 'H'.toUInt8
  | .regSHORestriction => 'Y'.toUInt8
  | .marketParticipantPosition => 'L'.toUInt8
  | .mwcbDeclineLevel => 'V'.toUInt8
  | .mwcbStatus => 'W'.toUInt8
  | .quotingPeriodUpdate => 'K'.toUInt8
  | .luldAuctionCollar => 'J'.toUInt8
  | .operationalHalt => 'h'.toUInt8
  | .addOrderNoMPIDAttribution => 'A'.toUInt8
  | .addOrderWithMPIDAttribution => 'F'.toUInt8
  | .orderExecuted => 'E'.toUInt8
  | .orderExecutedWithPrice => 'C'.toUInt8
  | .orderCancel => 'X'.toUInt8
  | .orderDelete => 'D'.toUInt8
  | .orderReplace => 'U'.toUInt8
  | .trade => 'P'.toUInt8
  | .crossTrade => 'Q'.toUInt8
  | .brokenTrade => 'B'.toUInt8
  | .netOrderImbalanceIndicator => 'I'.toUInt8
  | .retailPriceImprovementIndicator => 'N'.toUInt8
  | .directListingwithCapitalRaisePriceDiscovery => 'O'.toUInt8

/-- The fields that all structs but one begin with. -/
def prelude : List (Field × FieldType) :=
  [(.tag, .u8), (.stockLocate, .u16), (.trackingNumber, .u16), (.timestamp, .timestamp)]

/-- The fields of each struct, in declaration order. The structs are `repr(C, packed)`. -/
def layout : MsgKind → List (Field × FieldType)
  | .systemEvent => prelude ++ [(.eventCode, .u8)]
  | .stockDirectory =>
    prelude ++ [(.stock, .symbol), (.marketCategory, .u8), (.financialStatusIndicator, .u8),
      (.roundLotSize, .u32), (.roundLotsOnly, .u8), (.issueClassification, .u8),
      (.issueSubType, .bytes 2), (.authenticity, .u8), (.shortSaleThresholdIndicator, .u8),
      (.ipoFlag, .u8), (.luldReferencePriceTier, .u8), (.etpFlag, .u8),
      (.etpLeverageFactor, .u32), (.inverseIndicator, .u8)]
  | .stockTradingAction =>
    prelude ++ [(.stock, .symbol), (.tradingState, .u8), (.reserved, .u8), (.reason, .bytes 4)]
  | .regSHORestriction =>
    [(.tag, .u8), (.locateCode, .u16), (.trackingNumber, .u16), (.timestamp, .timestamp),
      (.stock, .symbol), (.regShoAction, .u8)]
  | .marketParticipantPosition =>
    prelude ++ [(.mpid, .bytes 4), (.stock, .symbol), (.primaryMarketMaker, .u8),
      (.marketMakerMode, .u8), (.marketParticipantState, .u8)]
  | .mwcbDeclineLevel => prelude ++ [(.level1, .price8), (.level2, .price8), (.level3, .price8)]
  | .mwcbStatus => prelude ++ [(.breachedLevel, .u8)]
  | .quotingPeriodUpdate =>
    prelude ++ [(.stock, .symbol), (.ipoQuotationReleaseTime, .u32),
      (.ipoQuotationReleaseQualifier, .u8), (.ipoPrice, .price4)]
  | .luldAuctionCollar =>
    prelude ++ [(.stock, .symbol), (.auctionCollarReferencePrice, .price4),
      (.upperAuctionCollarPrice, .price4), (.lowerAuctionCollarPrice, .price4),
      (.auctionCollarExtension, .price4)]
  | .operationalHalt =>
    prelude ++ [(.stock, .symbol), (.marketCode, .u8), (.operationalHaltAction, .u8)]
  | .addOrderNoMPIDAttribution =>
    prelude ++ [(.orderReferenceNumber, .u64), (.buySellIndicator, .u8), (.shares, .u32),
      (.stock, .symbol), (.price, .price4)]
  | .addOrderWithMPIDAttribution =>
    prelude ++ [(.orderReferenceNumber, .u64), (.buySellIndicator, .u8), (.shares, .u32),
      (.stock, .symbol), (.price, .price4), (.attribution, .bytes 4)]
  | .orderExecuted =>
    prelude ++ [(.orderReferenceNumber, .u64), (.executedShares, .u32), (.matchNumber, .u64)]
  | .orderExecutedWithPrice =>
    prelude ++ [(.orderReferenceNumber, .u64), (.executedShares, .u32), (.matchNumber, .u64),
      (.printable, .u8), (.executionPrice, .price4)]
  | .orderCancel => prelude ++ [(.orderReferenceNumber, .u64), (.cancelledShares, .u32)]
  | .orderDelete => prelude ++ [(.orderReferenceNumber, .u64)]
  | .orderReplace =>
    prelude ++ [(.originalOrderReferenceNumber, .u64), (.newOrderReferenceNumber, .u64),
      (.shares, .u32), (.price, .price4)]
  | .trade =>
    prelude ++ [(.orderReferenceNumber, .u64), (.buySellIndicator, .u8), (.shares, .u32),
      (.stock, .symbol), (.price, .price4), (.matchNumber, .u64)]
  | .crossTrade =>
    prelude ++ [(.shares, .u64), (.stock, .symbol), (.crossPrice, .price4), (.matchNumber, .u64),
      (.crossType, .u8)]
  | .brokenTrade => prelude ++ [(.matchNumber, .u64)]
  | .netOrderImbalanceIndicator =>
    prelude ++ [(.pairedShares, .u64), (.imbalanceShares, .u64), (.imbalanceDirection, .u8),
      (.stock, .symbol), (.farPrice, .price4), (.nearPrice, .price4),
      (.currentReferencePrice, .price4), (.crossType, .u8), (.priceVariationIndicator, .u8)]
  | .retailPriceImprovementIndicator => prelude ++ [(.stock, .symbol), (.interestFlag, .u8)]
  | .directListingwithCapitalRaisePriceDiscovery =>
    prelude ++ [(.stock, .symbol), (.openEligibilityStatus, .u8),
      (.minimumAllowablePrice, .price4), (.maximumAllowablePrice, .price4),
      (.nearExecutionPrice, .price4), (.nearExecutionTime, .u64),
      (.lowerPriceRangeCollar, .price4), (.upperPriceRangeCollar, .price4)]

/-- `LEN`: the size of the struct. -/
def len (kind : MsgKind) : Nat := (kind.layout.map fun field => field.2.size).sum

/-- Where a field starts. -/
def offset (kind : MsgKind) (field : Field) : Nat :=
  ((kind.layout.takeWhile fun entry => entry.1 ≠ field).map fun entry => entry.2.size).sum

def width (kind : MsgKind) (field : Field) : Nat :=
  ((kind.layout.find? fun entry => entry.1 = field).map fun entry => entry.2.size).getD 0

def all : List MsgKind :=
  [.systemEvent, .stockDirectory, .stockTradingAction, .regSHORestriction,
    .marketParticipantPosition, .mwcbDeclineLevel, .mwcbStatus, .quotingPeriodUpdate,
    .luldAuctionCollar, .operationalHalt, .addOrderNoMPIDAttribution,
    .addOrderWithMPIDAttribution, .orderExecuted, .orderExecutedWithPrice, .orderCancel,
    .orderDelete, .orderReplace, .trade, .crossTrade, .brokenTrade, .netOrderImbalanceIndicator,
    .retailPriceImprovementIndicator, .directListingwithCapitalRaisePriceDiscovery]

theorem mem_all (kind : MsgKind) : kind ∈ all := by cases kind <;> decide

end MsgKind

/-- A struct view of a message body, which `zerocopy` grants exactly at the struct's length. -/
structure Msg (kind : MsgKind) where
  bytes : List UInt8
  length : bytes.length = kind.len
  deriving DecidableEq

/-- A message of any kind. -/
abbrev Message := (kind : MsgKind) × Msg kind

inductive BuySellIndicator where
  | Buy
  | Sell
  | Unknown (byte : Nat)
  deriving DecidableEq, Repr

def BuySellIndicator.fromByte (byte : Nat) : BuySellIndicator :=
  if byte = 'B'.toNat then .Buy else if byte = 'S'.toNat then .Sell else .Unknown byte

namespace Msg

variable {kind : MsgKind}

/-- A big-endian field; the prices and the symbol are numbers too where the code reads them. -/
def get (msg : Msg kind) (field : Field) : Nat :=
  decode ((msg.bytes.drop (kind.offset field)).take (kind.width field))

def stockLocate (msg : Msg kind) : Nat := msg.get .stockLocate

def timestamp (msg : Msg kind) : Nat := msg.get .timestamp

def stock (msg : Msg kind) : Nat := msg.get .stock

def orderReferenceNumber (msg : Msg kind) : Nat := msg.get .orderReferenceNumber

def buySellIndicator (msg : Msg kind) : BuySellIndicator := .fromByte (msg.get .buySellIndicator)

def shares (msg : Msg kind) : Nat := msg.get .shares

def price (msg : Msg kind) : Nat := msg.get .price

def executedShares (msg : Msg kind) : Nat := msg.get .executedShares

def executionPrice (msg : Msg kind) : Nat := msg.get .executionPrice

def cancelledShares (msg : Msg kind) : Nat := msg.get .cancelledShares

def originalOrderReferenceNumber (msg : Msg kind) : Nat := msg.get .originalOrderReferenceNumber

def newOrderReferenceNumber (msg : Msg kind) : Nat := msg.get .newOrderReferenceNumber

/-- A field is in the range of its type. -/
theorem get_lt (msg : Msg kind) (field : Field) : msg.get field < 256 ^ kind.width field := by
  have bound := decode_lt ((msg.bytes.drop (kind.offset field)).take (kind.width field))
  have short : ((msg.bytes.drop (kind.offset field)).take (kind.width field)).length ≤
      kind.width field := List.length_take_le _ _
  exact Nat.lt_of_lt_of_le bound (Nat.pow_le_pow_right (by decide) short)

theorem stockLocate_lt (msg : Msg kind) : msg.stockLocate < 2 ^ 16 := by
  have width : kind.width .stockLocate ≤ 2 := by cases kind <;> decide
  exact Nat.lt_of_lt_of_le (msg.get_lt .stockLocate) (Nat.pow_le_pow_right (by decide) width)

end Msg

/-- The first byte of the body is the tag of the struct. -/
def Message.Tagged (m : Message) : Prop := m.2.bytes.head? = some m.1.tag

instance (m : Message) : Decidable m.Tagged := inferInstanceAs (Decidable (_ = _))

/-- Every struct is longer than its common prelude. -/
theorem MsgKind.len_bounds (kind : MsgKind) : 12 ≤ kind.len ∧ kind.len ≤ 50 := by
  cases kind <;> decide

end Hftrs.Itch5
