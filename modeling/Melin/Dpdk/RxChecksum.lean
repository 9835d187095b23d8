import Melin.Lib.OnesComplement

/-! Receive checksum admission: what the NIC vouches for, and what is verified in software. -/

namespace Melin.Dpdk

open Lib

/-- Where the receive checksum verdicts live in an mbuf's offload flags. -/
structure RxChecksumFlags where
  ipMask : UInt64
  ipGood : UInt64
  ipBad : UInt64
  ipNone : UInt64
  l4Mask : UInt64
  l4Good : UInt64
  l4Bad : UInt64
  l4None : UInt64
  deriving DecidableEq, Repr

inductive ChecksumStatus
  | good
  | bad
  | integrityVerified
  | unknown
  deriving DecidableEq, Repr

/-- The status masked flags stand for, the value with both bits first. -/
def status (masked good bad none : UInt64) : ChecksumStatus :=
  if masked = none then .integrityVerified
  else if masked = good then .good
  else if masked = bad then .bad
  else .unknown

namespace RxChecksumFlags

def bit (position : UInt64) : UInt64 := 1 <<< position

def dpdk : RxChecksumFlags where
  ipMask := bit 4 ||| bit 7
  ipGood := bit 7
  ipBad := bit 4
  ipNone := bit 4 ||| bit 7
  l4Mask := bit 3 ||| bit 8
  l4Good := bit 8
  l4Bad := bit 3
  l4None := bit 3 ||| bit 8

def ipStatus (flags : RxChecksumFlags) (olFlags : UInt64) : ChecksumStatus :=
  status (olFlags &&& flags.ipMask) flags.ipGood flags.ipBad flags.ipNone

def l4Status (flags : RxChecksumFlags) (olFlags : UInt64) : ChecksumStatus :=
  status (olFlags &&& flags.l4Mask) flags.l4Good flags.l4Bad flags.l4None

end RxChecksumFlags

inductive RxVerdict
  | accept
  | drop
  /-- Verify the listed checksums in software first. -/
  | verify (ip l4 : Bool)
  deriving DecidableEq, Repr

/-- Which checksums the stack skips, and where the NIC's verdicts on them are recorded. -/
structure RxChecksumPolicy where
  flags : RxChecksumFlags
  ipOffloaded : Bool
  l4Offloaded : Bool
  deriving DecidableEq, Repr

def ethHeaderLen : Nat := 14

def ethertypeIpv4 : Bytes := [0x08, 0x00]

def ipv4MinHeaderLen : Nat := 20

def ipProtoTcp : UInt8 := 6

def tcpMinHeaderLen : Nat := 20

def octet (packet : Bytes) (index : Nat) : UInt8 := packet.getD index 0

def fromBeBytes (high low : UInt8) : Nat := 256 * high.toNat + low.toNat

def addU32 (sum word : Nat) : Option Nat :=
  if sum + word < 2 ^ 32 then some (sum + word) else none

def sumWords : Bytes → Nat → Option Nat
  | high :: low :: rest, sum => do sumWords rest (← addU32 sum (fromBeBytes high low))
  | [last], sum => addU32 sum (last.toNat <<< 8)
  | [], sum => some sum

def fold (sum : Nat) : Nat :=
  if 0xFFFF < sum then fold ((sum &&& 0xFFFF) + (sum >>> 16)) else sum
termination_by sum
decreasing_by
  rw [show 0xFFFF = 2 ^ 16 - 1 from rfl, Nat.and_two_pow_sub_one_eq_mod, Nat.shiftRight_eq_div_pow]
  omega

def sumsUp (region : Bytes) (sum : Nat) : Option Bool :=
  (sumWords region sum).map fun sum => fold sum == 0xFFFF

def headerLen (packet : Bytes) : Nat := (octet packet 0 &&& 0x0F).toNat * 4

def totalLen (packet : Bytes) : Nat := fromBeBytes (octet packet 2) (octet packet 3)

def fragmented (packet : Bytes) : Bool :=
  fromBeBytes (octet packet 6) (octet packet 7) &&& 0x3FFF != 0

def segment (packet : Bytes) : Bytes :=
  slice packet (headerLen packet) (totalLen packet - headerLen packet)

def tcpSumsUp (packet : Bytes) : Option Bool :=
  if (segment packet).length < tcpMinHeaderLen then some false
  else do
    let sum ← sumWords (slice packet 12 8) 0
    let sum ← addU32 sum ipProtoTcp.toNat
    let sum ← addU32 sum (segment packet).length
    sumsUp (segment packet) sum

def packetValid (packet : Bytes) (ip l4 : Bool) : Option Bool :=
  if packet.length < ipv4MinHeaderLen ∨ octet packet 0 >>> 4 ≠ 4 then some false
  else if headerLen packet < ipv4MinHeaderLen ∨ totalLen packet < headerLen packet ∨
      packet.length < totalLen packet then some false
  else (if ip then sumsUp (packet.take (headerLen packet)) 0 else some true).bind fun headerOk =>
    if !headerOk then some false
    else if l4 && octet packet 9 == ipProtoTcp && !fragmented packet then tcpSumsUp packet
    else some true

def checksumsValid (frame : Bytes) (ip l4 : Bool) : Option Bool :=
  if frame.length < ethHeaderLen ∨ slice frame 12 2 ≠ ethertypeIpv4 then some true
  else packetValid (frame.drop ethHeaderLen) ip l4

namespace RxChecksumPolicy

def new (flags : RxChecksumFlags) (ipOffloaded l4Offloaded : Bool) : Option RxChecksumPolicy :=
  if ipOffloaded || l4Offloaded then some { flags, ipOffloaded, l4Offloaded } else none

def verdict (policy : RxChecksumPolicy) (olFlags : UInt64) : RxVerdict :=
  let ip := policy.flags.ipStatus olFlags
  let l4 := policy.flags.l4Status olFlags
  if policy.ipOffloaded && ip == .bad then .drop
  else if policy.l4Offloaded && l4 == .bad then .drop
  else
    let verifyIp := policy.ipOffloaded && ip == .unknown
    let verifyL4 := policy.l4Offloaded && l4 == .unknown
    if verifyIp || verifyL4 then .verify verifyIp verifyL4 else .accept

/-- Whether a frame may reach the stack; no answer where a running sum overflows. -/
def admits (policy : RxChecksumPolicy) (olFlags : UInt64) (frame : Bytes) : Option Bool :=
  match policy.verdict olFlags with
  | .accept => some true
  | .drop => some false
  | .verify ip l4 => checksumsValid frame ip l4

end RxChecksumPolicy

end Melin.Dpdk
