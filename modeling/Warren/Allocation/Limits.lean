import Warren.Allocation.Fault
import Warren.Crash

/-!
# Limits on capacity

Every set of allocations has a label that says what it is for. The capacity that a job asks for is
added up by label, and its share per compute node is compared with the configured limits. A sum that
does not fit a word is a crash.
-/

namespace Warren.Allocation

/-- What a set of allocations is for. -/
inductive Label where
  | xfs
  | gfs2
  | raw
  | ost
  | mdt
  | mgt
  | mgtmdt
deriving DecidableEq, Repr

namespace Label

def all : List Label := [.xfs, .gfs2, .raw, .ost, .mdt, .mgt, .mgtmdt]

def name : Label → String
  | .xfs => "xfs"
  | .gfs2 => "gfs2"
  | .raw => "raw"
  | .ost => "ost"
  | .mdt => "mdt"
  | .mgt => "mgt"
  | .mgtmdt => "mgtmdt"

def ofName (s : String) : Except Fault Label :=
  match all.find? fun label => label.name = s with
  | some label => .ok label
  | none => .error (.unknownLabel s)

/-- Whether every compute node has a file system of its own. -/
def isPerCompute : Label → Bool
  | .xfs | .gfs2 | .raw => true
  | _ => false

def strategy : Label → Strategy
  | .xfs | .gfs2 | .raw => .perCompute
  | .ost | .mdt | .mgtmdt => .acrossServers
  | .mgt => .singleServer

end Label

/-- The most GiB per compute node of each kind of storage, where `none` is no limit. -/
structure Limits where
  xfs : Option UInt64
  gfs2 : Option UInt64
  lustre : Option UInt64
  raw : Option UInt64
deriving DecidableEq, Repr

def Limits.unlimited : Limits := ⟨none, none, none, none⟩

/-- The GiB that a job asks for. -/
structure Demand where
  xfs : UInt64
  gfs2 : UInt64
  lustre : UInt64
  raw : UInt64
deriving DecidableEq, Repr

namespace Demand

def zero : Demand := ⟨0, 0, 0, 0⟩

/-- More demand under a label. Targets for metadata are small and are not counted. -/
def add (d : Demand) : Label → UInt64 → Except Crash Demand
  | .xfs, gib => return { d with xfs := ← Crash.fit64 (d.xfs.toNat + gib.toNat) }
  | .gfs2, gib => return { d with gfs2 := ← Crash.fit64 (d.gfs2.toNat + gib.toNat) }
  | .raw, gib => return { d with raw := ← Crash.fit64 (d.raw.toNat + gib.toNat) }
  | .ost, gib => return { d with lustre := ← Crash.fit64 (d.lustre.toNat + gib.toNat) }
  | .mdt, _ | .mgt, _ | .mgtmdt, _ => .ok d

/-- One kind of storage: what is asked for per compute node, and the limit. -/
structure Bucket where
  name : String
  requested : UInt64
  limit : Option UInt64

/-- The kinds of storage. A node-local file system is asked for per node already, while the
storage of lustre is shared by all nodes. -/
def buckets (d : Demand) (limits : Limits) (nodes : UInt64) : List Bucket :=
  [⟨"xfs", d.xfs, limits.xfs⟩, ⟨"gfs2", d.gfs2, limits.gfs2⟩, ⟨"raw", d.raw, limits.raw⟩,
    ⟨"lustre", d.lustre / max nodes 1, limits.lustre⟩]

/-- The fault of a kind of storage that is above its limit. -/
def Bucket.fault? (b : Bucket) : Option Fault :=
  match b.limit with
  | some limit =>
    if limit < b.requested then some (.limitExceeded b.requested b.name limit) else none
  | none => none

/-- Compares a demand with the limits; the first kind of storage that is above its limit counts. -/
def validate (d : Demand) (limits : Limits) (nodes : UInt64) : Except Fault Unit :=
  match (d.buckets limits nodes).findSome? Bucket.fault? with
  | some fault => .error fault
  | none => .ok ()

end Demand

end Warren.Allocation
