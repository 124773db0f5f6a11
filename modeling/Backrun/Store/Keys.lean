import Backrun.Asset.Account
import Backrun.Route.Pair

/-!
# Key layout

Each kind of record has a leading byte of its own.  A zero byte divides two
denominations, which contain none, so no key of one pair begins another's.
-/

namespace Backrun.Key

/-- The leading bytes of all registered routes. -/
def allPairRoutes : Bytes := [0x01]

/-- The leading bytes of all base denominations. -/
def allBaseDenoms : Bytes := [0x02]

/-- The leading bytes of the whole pool index. -/
def allPools : Bytes := [0x03]

/-- The configuration. -/
def config : Bytes := [0x04]

/-- The points consumed in the current block. -/
def pointCounter : Bytes := [0x05]

/-- The leading bytes of all developer fees. -/
def allDeveloperFees : Bytes := [0x06]

/-- The time at which the module began. -/
def genesisTime : Bytes := [0x07]

/-- The number of executed cycles. -/
def tradeCount : Bytes := [0x08]

/-- The leading bytes of all profits. -/
def allProfits : Bytes := [0x09]

/-- Two denominations with the dividing byte between them. -/
def joined (a b : Denom) : Bytes := a.bytes ++ 0x00 :: b.bytes

/-- The routes of a pair. -/
def pairRoutes (p : DenomPair) : Bytes := allPairRoutes ++ joined p.tokenA p.tokenB

/-- The base denomination at an index, so that key order is list order. -/
def baseDenom (index : UInt64) : Bytes := allBaseDenoms ++ Bytes.bigEndian index

/-- The leading bytes of the pool index of a base denomination. -/
def poolsOf (base : Denom) : Bytes := allPools ++ (base.bytes ++ [0x00])

/-- The pool between a base denomination and another one. -/
def pool (base counter : Denom) : Bytes := allPools ++ joined base counter

/-- The developer fees of a denomination. -/
def developerFees (d : Denom) : Bytes := allDeveloperFees ++ d.bytes

/-- The profits of a denomination. -/
def profits (d : Denom) : Bytes := allProfits ++ d.bytes

end Backrun.Key
