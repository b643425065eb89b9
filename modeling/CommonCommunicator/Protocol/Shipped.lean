import CommonCommunicator.Protocol.Chain
import CommonCommunicator.Protocol.FixedHeader
import CommonCommunicator.Protocol.UniversalCmd

/-!
# The shipped protocol library

The three classes that the library's `create_instance` knows, over one state
type, so that a chain can hold any of them.
-/

namespace CommonCommunicator

/-- The members of all shipped classes; each class uses its own part. -/
structure ShippedHead where
  fixed : FixedHeader
  universal : UniversalCmd
  deriving DecidableEq, Repr

namespace ShippedHead

def initial : ShippedHead := { fixed := FixedHeader.cleared, universal := UniversalCmd.cleared }

end ShippedHead

def CPBigEndian : IProtocolInf ShippedHead :=
  (FixedHeader.codec .big "CPBigEndian").zoom ShippedHead.fixed
    (fun whole head => { whole with fixed := head }) ShippedHead.initial

def CPLittleEndian : IProtocolInf ShippedHead :=
  (FixedHeader.codec .little "CPLittleEndian").zoom ShippedHead.fixed
    (fun whole head => { whole with fixed := head }) ShippedHead.initial

def CPUniversalCMD : IProtocolInf ShippedHead :=
  UniversalCmd.codec.zoom ShippedHead.universal
    (fun whole head => { whole with universal := head }) ShippedHead.initial

/-- The names of the shipped classes. -/
inductive ShippedCodec
  | bigEndian
  | littleEndian
  | universalCMD
  deriving DecidableEq, Repr

namespace ShippedCodec

/-- `create_instance`. -/
def cls : ShippedCodec → IProtocolInf ShippedHead
  | bigEndian => CPBigEndian
  | littleEndian => CPLittleEndian
  | universalCMD => CPUniversalCMD

/-- The wire byte order of a fixed-header codec. -/
def order? : ShippedCodec → Option ByteOrder
  | bigEndian => some .big
  | littleEndian => some .little
  | universalCMD => none

/-- No shipped class looks into the bytes for the size of a message. -/
@[simp] theorem getMsgSize_cls (codec : ShippedCodec) (head : ShippedHead) (mem : Bytes)
    (dataSize : Nat) : codec.cls.getMsgSize head mem dataSize = dataSize := by
  cases codec <;> rfl

variable {codec : ShippedCodec} {order : ByteOrder}

/-- A fixed-header class has no owner. -/
theorem whoIsOwner_fixed (hcodec : codec.order? = some order) (head : ShippedHead) :
    codec.cls.whoIsOwner head = [] := by
  cases codec with
  | bigEndian => rfl
  | littleEndian => rfl
  | universalCMD => cases hcodec

/-- A fixed-header class packs with its own part of the members. -/
theorem pack_fixed (hcodec : codec.order? = some order) (head : ShippedHead) (now : UInt64)
    (msg : Bytes) (pvd : ProviderType) (fromApp : Bytes) :
    codec.cls.pack head now msg pvd fromApp =
      (FixedHeader.pack order head.fixed msg pvd).map fun r =>
        (r.1, { head with fixed := r.2.1 }, r.2.2) := by
  cases codec with
  | bigEndian =>
      obtain rfl : .big = order := Option.some.inj hcodec
      rw [cls, CPBigEndian, IProtocolInf.pack_zoom]
      rfl
  | littleEndian =>
      obtain rfl : .little = order := Option.some.inj hcodec
      rw [cls, CPLittleEndian, IProtocolInf.pack_zoom]
      rfl
  | universalCMD => cases hcodec

/-- A fixed-header class unpacks into its own part of the members. -/
theorem unpack_fixed (hcodec : codec.order? = some order) (head : ShippedHead)
    (payload : CRawMessage) (mem : Bytes) (msgSize : Nat) :
    codec.cls.unpack head payload mem msgSize =
      (FixedHeader.unpack order payload mem msgSize).map fun r =>
        (r.1, { head with fixed := r.2.1 }, r.2.2) := by
  cases codec with
  | bigEndian =>
      obtain rfl : .big = order := Option.some.inj hcodec
      rw [cls, CPBigEndian, IProtocolInf.unpack_zoom]
      rfl
  | littleEndian =>
      obtain rfl : .little = order := Option.some.inj hcodec
      rw [cls, CPLittleEndian, IProtocolInf.unpack_zoom]
      rfl
  | universalCMD => cases hcodec

end ShippedCodec

end CommonCommunicator
