import LiveMigration.Checksum
import LiveMigration.Net.Addr

namespace LiveMigration

structure FiveTuple where
  srcAddr : Addr
  dstAddr : Addr
  protocol : UInt8
  srcPort : UInt16
  dstPort : UInt16
  deriving DecidableEq, Repr

namespace FiveTuple

def tcpProtocol : UInt8 := 6

def tcp (srcAddr : Addr) (srcPort : UInt16) (dstAddr : Addr) (dstPort : UInt16) : FiveTuple :=
  ⟨srcAddr, dstAddr, tcpProtocol, srcPort, dstPort⟩

def portBytes (p : UInt16) : List UInt8 :=
  [UInt8.ofNat (p.toNat / 256), UInt8.ofNat (p.toNat % 256)]

def bytes (t : FiveTuple) : List UInt8 :=
  t.srcAddr.octets.map UInt8.ofNat ++ t.dstAddr.octets.map UInt8.ofNat ++
    t.protocol :: portBytes t.srcPort ++ portBytes t.dstPort

def hash (t : FiveTuple) : UInt32 := Checksum.crc32c t.bytes

end FiveTuple

end LiveMigration
