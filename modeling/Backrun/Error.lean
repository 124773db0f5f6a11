import Backrun.Asset.Coin
import Backrun.Config.Basic
import Backrun.Route.Pair

/-!
# Errors

Each way in which an operation of the engine can fail, by cause.  `Error.message`
holds every wording.  An error is recoverable if the engine passes over the
attempt instead of reporting it.
-/

namespace Backrun

/-- What a pool market or a bank says when it refuses. -/
abbrev Fault := String

/-- What could not be found. -/
inductive Missing where
  | config
  | pointCounter
  | genesisTime
  | routes (pair : DenomPair)
  | poolFor (base counter : Denom)
  | developerFees (denom : Denom)
  | profits (denom : Denom)
  | pool (id : PoolId) (fault : Fault)
  | weight (poolType : PoolType)
  | quote (hop : Hop) (fault : Fault)
  deriving DecidableEq, Repr

namespace Missing

/-- What is missing in words. -/
def message : Missing → String
  | .config => "engine config has not been initialized at genesis"
  | .pointCounter => "point counter has not been initialized at genesis"
  | .genesisTime => "module genesis time has not been set"
  | .routes pair => "no routes found for token pair " ++ pair.text
  | .poolFor base counter =>
      "highest liquidity pool between base " ++ base.text ++ " and match denom " ++ counter.text
        ++ " not found"
  | .developerFees denom => "developer fees for " ++ denom.text ++ " not found"
  | .profits denom => "no profits recorded for " ++ denom.text
  | .pool id fault => "pool " ++ toString id ++ ": " ++ fault
  | .weight poolType => "no point weight for " ++ poolType.text ++ " pools"
  | .quote hop fault => "quote for " ++ hop.text ++ " failed: " ++ fault

end Missing

/-- Why a caller is turned away. -/
inductive Denial where
  | notAdmin (caller : Account)
  | notDeveloper (caller : Account)
  | noDeveloper
  deriving DecidableEq, Repr

namespace Denial

/-- The denial in words. -/
def message : Denial → String
  | .notAdmin caller => caller.text ++ " is not the admin account"
  | .notDeveloper caller => caller.text ++ " is not the developer account"
  | .noDeveloper => "developer account has not been set"

end Denial

/-- What is wrong with registered routes, base denominations or the pool index. -/
inductive RegistryFault where
  | degeneratePair (a b : Denom)
  | offPair (route : Route) (pair : DenomPair)
  | noBaseDenoms
  | baseTwice (denom : Denom)
  | zeroStep (denom : Denom)
  | degeneratePool (base counter : Denom)
  deriving DecidableEq, Repr

namespace RegistryFault

/-- The fault in words. -/
def message : RegistryFault → String
  | .degeneratePair a b => "token pair " ++ a.text ++ "/" ++ b.text ++ " is degenerate"
  | .offPair route pair => "route " ++ route.text ++ " never trades the pair " ++ pair.text
  | .noBaseDenoms => "base denom list must not be empty"
  | .baseTwice denom => "base denom " ++ denom.text ++ " listed twice"
  | .zeroStep denom => "base denom " ++ denom.text ++ " has a zero step size"
  | .degeneratePool base counter =>
      "pool index entry " ++ base.text ++ "/" ++ counter.text ++ " is degenerate"

end RegistryFault

/-- What is wrong with a genesis document, beyond the faults of its parts. -/
inductive GenesisFault where
  | notCanonical (pair : DenomPair)
  | pairTwice (pair : DenomPair)
  | noRoutes (pair : DenomPair)
  | poolEntry (base counter : Denom)
  | feesTwice (denom : Denom)
  | profitsTwice (denom : Denom)
  | feesAboveProfit (fees : Coin) (booked : Amount)
  | consumedAboveCeiling (consumed ceiling : UInt64)
  deriving DecidableEq, Repr

namespace GenesisFault

/-- The fault in words. -/
def message : GenesisFault → String
  | .notCanonical pair => "token pair " ++ pair.text ++ " is not in canonical order"
  | .pairTwice pair => "token pair " ++ pair.text ++ " listed twice"
  | .noRoutes pair => "token pair " ++ pair.text ++ " has no routes"
  | .poolEntry base counter => "invalid pool index entry " ++ base.text ++ "/" ++ counter.text
  | .feesTwice denom => "developer fees list " ++ denom.text ++ " twice"
  | .profitsTwice denom => "profits list " ++ denom.text ++ " twice"
  | .feesAboveProfit fees booked =>
      "developer fees " ++ fees.text ++ " exceed booked profit " ++ booked.text
  | .consumedAboveCeiling consumed ceiling =>
      "consumed points " ++ toString consumed ++ " exceed max points per block "
        ++ toString ceiling

end GenesisFault

/-- What is wrong with a value that was to be configured. -/
inductive Invalid where
  | denom (raw : String) (fault : DenomFault)
  | account (raw : String) (fault : AccountFault)
  | route (fault : RouteFault)
  | config (fault : ConfigFault)
  | txAboveBlock (perTx perBlock : UInt64)
  | blockBelowTx (perBlock perTx : UInt64)
  | registry (fault : RegistryFault)
  | genesis (fault : GenesisFault)
  deriving DecidableEq, Repr

namespace Invalid

/-- The fault in words. -/
def message : Invalid → String
  | .denom raw fault => fault.message raw
  | .account raw fault => fault.message raw
  | .route fault => fault.message
  | .config fault => fault.message
  | .txAboveBlock perTx perBlock =>
      "max points per tx (" ++ toString perTx ++ ") may not exceed max points per block ("
        ++ toString perBlock ++ ")"
  | .blockBelowTx perBlock perTx =>
      "max points per block (" ++ toString perBlock ++ ") may not be below max points per tx ("
        ++ toString perTx ++ ")"
  | .registry fault => fault.message
  | .genesis fault => fault.message

end Invalid

/-- How the execution of a cycle or of a withdrawal fails. -/
inductive Setback where
  | noHops
  | outputCount (route : Route) (outputs : Nat)
  | mint (coin : Coin) (fault : Fault)
  | swap (hop : Hop) (fault : Fault)
  | slipped (hop : Hop) (output quoted : Amount)
  | noProfit (output input : Amount)
  | burn (coin : Coin) (fault : Fault)
  | withdrawal (fault : Fault)
  deriving DecidableEq, Repr

namespace Setback

/-- The setback in words. -/
def message : Setback → String
  | .noHops => "route has no hops"
  | .outputCount route outputs =>
      "route " ++ route.text ++ " has " ++ toString route.hops.length ++ " hops but "
        ++ toString outputs ++ " quoted outputs"
  | .mint coin fault => "mint " ++ coin.text ++ " failed: " ++ fault
  | .swap hop fault => "swap " ++ hop.text ++ " failed: " ++ fault
  | .slipped hop output quoted =>
      "swap " ++ hop.text ++ " returned " ++ output.text ++ " below quoted " ++ quoted.text
  | .noProfit output input => "cycle returned " ++ output.text ++ " for input " ++ input.text
  | .burn coin fault => "burn " ++ coin.text ++ " failed: " ++ fault
  | .withdrawal fault => "developer withdrawal failed: " ++ fault

end Setback

/-- A counter that would outgrow its word. -/
inductive Overflow where
  | developerFees (denom : Denom)
  | profits (denom : Denom)
  deriving DecidableEq, Repr

namespace Overflow

/-- The overflow in words. -/
def message : Overflow → String
  | .developerFees denom => "developer fees for " ++ denom.text ++ " overflow"
  | .profits denom => "profit counter for " ++ denom.text ++ " overflows"

end Overflow

/-- The kinds of errors. -/
inductive ErrorKind where
  | notFound
  | budgetExceeded
  | unauthorized
  | invalidConfig
  | executionFailure
  | codec
  | store
  deriving DecidableEq, Repr

namespace ErrorKind

/-- Whether the engine passes over an attempt that fails in this way. -/
def isRecoverable : ErrorKind → Bool
  | .notFound | .budgetExceeded | .executionFailure => true
  | .unauthorized | .invalidConfig | .codec | .store => false

/-- The words in front of the particulars. -/
def label : ErrorKind → String
  | .notFound => "not found"
  | .budgetExceeded => "point budget exceeded"
  | .unauthorized => "unauthorized"
  | .invalidConfig => "invalid configuration"
  | .executionFailure => "execution failure"
  | .codec => "codec error"
  | .store => "store error"

/-- The words of an error with the given particulars. -/
def describe (kind : ErrorKind) (particulars : String) : String :=
  kind.label ++ ": " ++ particulars

end ErrorKind

/-- The particulars of a refused debit. -/
def budgetParticulars (requested remaining : UInt64) : String :=
  "requested " ++ toString requested ++ ", remaining " ++ toString remaining

/-- A failed operation. -/
inductive Error where
  /-- A record, a pool or a price is missing. -/
  | notFound (what : Missing)
  /-- A debit does not fit the point budget. -/
  | budgetExceeded (requested remaining : UInt64)
  /-- The caller may not do this. -/
  | unauthorized (denial : Denial)
  /-- A value may not be configured. -/
  | invalidConfig (fault : Invalid)
  /-- An attempt was given up. -/
  | executionFailure (setback : Setback)
  /-- Stored bytes are not a record. -/
  | codec
  /-- A counter is full. -/
  | store (overflow : Overflow)
  deriving DecidableEq, Repr

namespace Error

/-- The kind of an error. -/
def kind : Error → ErrorKind
  | .notFound _ => .notFound
  | .budgetExceeded _ _ => .budgetExceeded
  | .unauthorized _ => .unauthorized
  | .invalidConfig _ => .invalidConfig
  | .executionFailure _ => .executionFailure
  | .codec => .codec
  | .store _ => .store

/-- Whether the engine passes over an attempt that fails like this. -/
def isRecoverable (e : Error) : Bool := e.kind.isRecoverable

/-- The error in words. Of a record that cannot be read only the kind is told. -/
def message (e : Error) : String :=
  match e with
  | .notFound what => e.kind.describe what.message
  | .budgetExceeded requested remaining => e.kind.describe (budgetParticulars requested remaining)
  | .unauthorized denial => e.kind.describe denial.message
  | .invalidConfig fault => e.kind.describe fault.message
  | .executionFailure setback => e.kind.describe setback.message
  | .codec => e.kind.label
  | .store overflow => e.kind.describe overflow.message

end Error

end Backrun
