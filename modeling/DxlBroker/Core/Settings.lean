import DxlBroker.Lib.Bytes
import Mathlib.Data.Int.Notation

/-!
# Broker settings and context flags
-/

namespace DxlBroker

open Bytes

/-- The settings of a broker. -/
structure BrokerSettings where
  guid : Bytes
  instanceGuid : Bytes := []
  tenantGuid : Bytes := []
  multiTenantModeEnabled : Bool := false
  topicRoutingEnabled : Bool := true
  testModeEnabled : Bool := false
  tenantClientSubscriptionLimit : UInt32 := 0
  tenantServiceLimit : UInt32 := 0
  tenantConnectionLimit : UInt32 := 0
  tenantByteLimit : UInt32 := 0
  uniqueClientIdPerFabricEnabled : Bool := false
  ttlCheckIntervalMins : ℤ := 10
  ttlGracePeriodMins : ℤ := 5

/-- `getTenantGuid`: reading a tenant GUID that was not set is an error. -/
def BrokerSettings.getTenantGuid (s : BrokerSettings) : Except String Bytes :=
  if s.tenantGuid = [] then .error "Broker tenant GUID not been set" else .ok (cstr s.tenantGuid)

/-- A limit is compared as a signed number.  It stays different from zero. -/
theorem limit_ne_zero {limit : UInt32} (h : limit ≠ 0) : limit.toInt32.toInt ≠ 0 := by
  intro hzero
  have hzero' : limit.toInt32 = 0 := Int32.toInt_inj.mp hzero
  have hlimit : limit = Int32.toUInt32 0 := by simpa using congrArg Int32.toUInt32 hzero'
  exact h hlimit

def dxlFlagLocal : UInt8 := 0x01

def dxlFlagAdmin : UInt8 := 0x02

def dxlFlagOps : UInt8 := 0x04

def dxlFlagManaged : UInt8 := 0x80

end DxlBroker
