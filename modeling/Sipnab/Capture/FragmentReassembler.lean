import Sipnab.Capture.TcpReassembler

/-!
# IP fragment reassembly

The fragments of a datagram are collected under the addresses, the identification and the protocol
they share. A fragment that overlaps a collected one is dropped when it is a copy of it, and takes
the whole datagram with it when it is not. The datagram is complete once the fragments lie end to
end up to the end of the last one.
-/

namespace Sipnab

structure FragmentPacket extends ParsedPacket where
  ipId : Option ℕ
  fragmentOffset : Option ℕ
  moreFragments : Bool
  ipProtocol : ℕ
  deriving DecidableEq

structure FragmentKey where
  src : IpAddr
  dst : IpAddr
  ipId : ℕ
  protocol : ℕ
  deriving DecidableEq

/-- A fragment where it lies in the datagram, and whether it ends it. -/
structure Fragment where
  offset : ℕ
  data : List UInt8
  ends : Bool
  deriving DecidableEq

def FragmentPacket.key (p : FragmentPacket) : Option FragmentKey :=
  p.ipId.map (fun ipId => ⟨p.srcAddr, p.dstAddr, ipId, p.ipProtocol⟩)

def FragmentPacket.fragment (p : FragmentPacket) : Fragment where
  offset := p.fragmentOffset.getD 0 * 8
  data := p.payload
  ends := !p.moreFragments

structure FragmentEntry where
  fragments : List Fragment := []
  totalLen : Option ℕ := none
  created : Instant

inductive FragmentOverlap
  | none | duplicate | conflict
  deriving DecidableEq

namespace FragmentEntry

/-- How a fragment relates to the first one held that it shares a byte with. -/
def overlap (e : FragmentEntry) (f : Fragment) : FragmentOverlap :=
  match e.fragments.find? (fun g =>
    f.offset < g.offset + g.data.length && g.offset < f.offset + f.data.length) with
  | Option.none => .none
  | some g => if g = f then .duplicate else .conflict

def endOf : ℕ → List Fragment → Option ℕ
  | cursor, [] => some cursor
  | cursor, f :: fs => if f.offset ≠ cursor then Option.none else endOf (cursor + f.data.length) fs

def copyInto (buf : List UInt8) (f : Fragment) : List UInt8 :=
  buf.take f.offset ++ f.data ++ buf.drop (f.offset + f.data.length)

/-- Fragments in the order of their offsets, those of one offset as they came. -/
def sorted (e : FragmentEntry) : List Fragment :=
  e.fragments.insertionSort (fun f g => f.offset ≤ g.offset)

def assemble (e : FragmentEntry) (totalLen : ℕ) : Option (List UInt8) :=
  match endOf 0 e.sorted with
  | Option.none => Option.none
  | some cursor =>
    if cursor ≠ totalLen then Option.none
    else some (e.sorted.foldl copyInto (List.replicate totalLen 0))

end FragmentEntry

def maxReassembledSize : ℕ := 65535

/-- How datagrams are put in order of age, those of one age in any order. -/
structure FragmentEnv where
  byAge : List (Instant × FragmentKey) → List (Instant × FragmentKey)
  byAge_perm : ∀ xs, (byAge xs).Perm xs
  byAge_sorted : ∀ xs, (byAge xs).Pairwise (fun a b => a.1 ≤ b.1)

/-- Datagrams of one age in the order they are listed in. -/
def FragmentEnv.plain : FragmentEnv where
  byAge := fun xs => xs.insertionSort (fun a b => a.1 ≤ b.1)
  byAge_perm := fun xs => List.perm_insertionSort _ xs
  byAge_sorted := by
    intro xs
    have htotal : Std.Total (fun a b : Instant × FragmentKey => a.1 ≤ b.1) :=
      ⟨fun a b => Nat.le_total a.1 b.1⟩
    have htrans : IsTrans (Instant × FragmentKey) (fun a b => a.1 ≤ b.1) :=
      ⟨fun _ _ _ => Nat.le_trans⟩
    exact List.pairwise_insertionSort _ xs

structure FragmentReassembler where
  entries : IndexMap FragmentKey FragmentEntry := .empty
  maxEntries : ℕ
  ttl : ℕ

namespace FragmentReassembler

def put (r : FragmentReassembler) (key : FragmentKey) (e : FragmentEntry) : FragmentReassembler :=
  { r with entries := r.entries.insert key e }

def remove (r : FragmentReassembler) (key : FragmentKey) : FragmentReassembler :=
  { r with entries := r.entries.filter (fun e => e.1 ≠ key) }

def evictOldest (env : FragmentEnv) (r : FragmentReassembler) : FragmentReassembler :=
  let batch := min (max (r.maxEntries / 100) 1) r.entries.length
  let byAge := env.byAge (r.entries.entries.map (fun e => (e.2.created, e.1)))
  (byAge.take batch).foldl (fun r e => r.remove e.2) r

def makeRoom (env : FragmentEnv) (r : FragmentReassembler) (key : FragmentKey) :
    FragmentReassembler :=
  if (r.entries.get? key).isNone ∧ r.maxEntries ≤ r.entries.length then r.evictOldest env else r

/-- Hold a fragment. The length of the datagram, where it is known by now and the fragment is
new. -/
def storeFragment (now : Instant) (r : FragmentReassembler) (key : FragmentKey) (f : Fragment) :
    FragmentReassembler × Option ℕ :=
  let entry := (r.entries.get? key).getD { created := now }
  match entry.overlap f with
  | .duplicate => (r.put key entry, none)
  | .conflict => (r.remove key, none)
  | .none =>
    let entry := { entry with
      fragments := entry.fragments ++ [f]
      totalLen := if f.ends then some (f.offset + f.data.length) else entry.totalLen }
    (r.put key entry, entry.totalLen)

def completeDatagram (r : FragmentReassembler) (key : FragmentKey) (totalLen : ℕ) :
    FragmentReassembler × Option (List UInt8) :=
  if maxReassembledSize < totalLen then (r.remove key, none)
  else match (r.entries.get? key).bind (fun e => e.assemble totalLen) with
    | none => (r, none)
    | some datagram => (r.remove key, some datagram)

def insert (env : FragmentEnv) (now : Instant) (r : FragmentReassembler) (p : FragmentPacket) :
    FragmentReassembler × Option (List UInt8) :=
  match p.key with
  | none => (r, none)
  | some key =>
    match (r.makeRoom env key).storeFragment now key p.fragment with
    | (r, none) => (r, none)
    | (r, some totalLen) => r.completeDatagram key totalLen

end FragmentReassembler

end Sipnab
