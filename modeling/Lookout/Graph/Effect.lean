-- SUMMARY: The wire primitives that all stored formats share, and the effect log of one delta.
import Lookout.Graph.Types
import Lookout.Lib.Decoder

/-!
# Effects

While the writer applies a delta it records each primitive mutation of the graph. The
replayer performs the same mutations from the encoded log.

Strings carry their length in front, and node numbers are varints that must fit 32 bits.
The error that sticks in the source's decoder is the first one, which is the one a decoder
here returns.
-/

namespace Lookout

/-- A string with its length in front. -/
def appendString (s : GoString) : GoString := Decoder.appendUvarint s.length ++ s

/-- How a primitive reader fails. -/
inductive DecodeError where
  | truncatedVarint
  | truncatedByte
  | idOutOfRange (v : Nat)
  | stringLength (n : Nat)
  deriving DecidableEq, Repr

def maxUint32 : Nat := 4294967295

/-- The longest string a reader accepts. -/
def maxRestoreStringLen : Nat := 4096

namespace Wire

variable {ε : Type} (wrap : DecodeError → ε)

def uvarint : Decoder ε Nat := Decoder.uvarint (wrap .truncatedVarint)

def byte : Decoder ε UInt8 := Decoder.byte (wrap .truncatedByte)

/-- A node number. -/
def id : Decoder ε NodeID := do
  let v ← uvarint wrap
  if maxUint32 < v then Decoder.fail (wrap (.idOutOfRange v)) else pure v

def str : Decoder ε GoString := do
  let n ← uvarint wrap
  fun bs =>
    if maxRestoreStringLen < n ∨ bs.length < n then .error (wrap (.stringLength n))
    else Decoder.take n bs

open Decoder (Reads)

theorem reads_uvarint {n : Nat} (h : n < 2 ^ 64) :
    Reads (uvarint wrap) (Decoder.appendUvarint n) n :=
  Decoder.reads_uvarint _ h

theorem reads_byte (b : UInt8) : Reads (byte wrap) [b] b := Decoder.reads_byte _ b

theorem reads_id {n : NodeID} (h : n ≤ maxUint32) :
    Reads (id wrap) (Decoder.appendUvarint n) n := by
  have hread : Reads (uvarint wrap) (Decoder.appendUvarint n) n :=
    reads_uvarint wrap (Nat.lt_of_le_of_lt h (by decide))
  rw [← List.append_nil (Decoder.appendUvarint n)]
  refine hread.bind ?_
  rw [if_neg (Nat.not_lt.2 h)]
  exact Reads.pure n

variable {s : GoString}

theorem reads_str (h : s.length ≤ maxRestoreStringLen) : Reads (str wrap) (appendString s) s := by
  have hread : Reads (uvarint wrap) (Decoder.appendUvarint s.length) s.length :=
    reads_uvarint wrap (Nat.lt_of_le_of_lt h (by decide))
  refine hread.bind fun rest => ?_
  rw [if_neg (by simp; omega)]
  exact Decoder.reads_take s rest

end Wire

/-! ## The effect log -/

/-- One primitive mutation. -/
inductive Effect where
  | nodeNew (id : NodeID) (kind : NodeKind) (key : GoString)
  | observe (id : NodeID) (kind : NodeKind)
  | unobserve (id : NodeID)
  | gc (id : NodeID)
  | edgeAdd (e : HalfEdge)
  | edgeRemove (e : HalfEdge)
  deriving DecidableEq, Repr

def effectVersion : UInt8 := 1

namespace Effect

def encodeEdge (e : HalfEdge) : GoString :=
  Decoder.appendUvarint e.src ++ Decoder.appendUvarint e.dst ++ [e.kind.code]

def encode : Effect → GoString
  | nodeNew id kind key => 1 :: (Decoder.appendUvarint id ++ [kind.code] ++ appendString key)
  | observe id kind => 2 :: (Decoder.appendUvarint id ++ [kind.code])
  | unobserve id => 3 :: Decoder.appendUvarint id
  | gc id => 4 :: Decoder.appendUvarint id
  | edgeAdd e => 5 :: encodeEdge e
  | edgeRemove e => 6 :: encodeEdge e

/-- The versioned blob of a log. A log without entries has no blob. -/
def encodeLog : List Effect → GoString
  | [] => []
  | log => effectVersion :: (Decoder.appendUvarint log.length ++ log.flatMap encode)

end Effect

end Lookout
